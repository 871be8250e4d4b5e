import Mathlib.Data.List.Induction
import Mathlib.Data.List.Infix
import Mathlib.Data.List.TakeDrop
import Mathlib.Data.List.TakeWhile
import TypeStrip.Package.Lookup

/-!
Where packages are found: in the nearest directory that has them, from that of the importing file up
to the root of the project. Packages farther up, or above the root, make no difference, also when
the nearest one has no file to enter by.
-/
namespace TypeStrip

/-! ### The way up -/

namespace WrittenPath

variable {p q root : WrittenPath}

theorem trimmed_concat (parts : List String) (part : String) :
    trimmed (parts ++ [part]) = if staysInPlace part then trimmed parts else parts ++ [part] := by
  rw [trimmed, List.reverse_concat, List.dropWhile_cons]
  split
  · rfl
  · rw [List.reverse_cons, List.reverse_reverse]

theorem steps_concat (parts : List String) (part : String) : steps ⟨parts ++ [part]⟩ =
    if staysInPlace part then steps ⟨parts⟩ else steps ⟨parts⟩ ++ [part] := by
  rw [steps, List.filter_append, List.filter_singleton]
  cases staysInPlace part with
  | true => exact List.append_nil _
  | false => rfl

/-- Parts at the end that stay in place lead nowhere. -/
theorem steps_trimmed (parts : List String) : steps ⟨trimmed parts⟩ = steps ⟨parts⟩ := by
  induction parts using List.reverseRecOn with
  | nil => rfl
  | append_singleton parts part ih =>
    rw [trimmed_concat]
    split
    · next hstay => rw [ih, steps_concat, if_pos hstay]
    · rfl

/-- The way to a path is the way to its parent and one step more; without a parent there is none. -/
theorem steps_parent? (p : WrittenPath) :
    match p.parent? with
    | some q => ∃ name, p.steps = q.steps ++ [name]
    | none => p.steps = [] := by
  obtain ⟨parts⟩ := p
  induction parts using List.reverseRecOn with
  | nil => rfl
  | append_singleton parts part ih =>
    by_cases hstay : staysInPlace part = true
    · have hsame : parent? ⟨parts ++ [part]⟩ = parent? ⟨parts⟩ := by
        rw [parent?, parent?, trimmed_concat, if_pos hstay]
      rw [hsame, steps_concat, if_pos hstay]
      exact ih
    · have hparent : parent? ⟨parts ++ [part]⟩ = some ⟨trimmed parts⟩ := by
        rw [parent?, trimmed_concat, if_neg hstay, List.dropLast_concat, if_neg (by simp)]
      rw [hparent, steps_concat, if_neg hstay]
      exact ⟨part, by rw [steps_trimmed]⟩

theorem exists_steps_of_parent? (h : p.parent? = some q) : ∃ name, p.steps = q.steps ++ [name] := by
  have hsteps := p.steps_parent?
  rwa [h] at hsteps

theorem steps_eq_nil_of_parent? (h : p.parent? = none) : p.steps = [] := by
  have hsteps := p.steps_parent?
  rwa [h] at hsteps

/-- The ways to the directories above a path are the beginnings of the way to it, the longest
first. -/
theorem map_steps_ancestors (p : WrittenPath) : p.ancestors.map steps = p.steps.inits.reverse := by
  induction p using ancestors.induct with
  | case1 p ih =>
    rw [ancestors]
    cases hparent : p.parent? with
    | none =>
      rw [List.map_singleton, steps_eq_nil_of_parent? hparent]
      rfl
    | some q =>
      obtain ⟨name, hname⟩ := exists_steps_of_parent? hparent
      rw [List.map_cons, ih q hparent, hname, List.inits_append]
      simp

theorem steps_prefix_of_mem_ancestors (h : q ∈ p.ancestors) : q.steps <+: p.steps := by
  have hmem := List.mem_map_of_mem (f := steps) h
  rw [map_steps_ancestors, List.mem_reverse] at hmem
  exact (List.mem_inits _ _).1 hmem

/-- Each directory on the way up has a shorter way to it than those before. -/
theorem pairwise_ancestors (p : WrittenPath) :
    p.ancestors.Pairwise fun near far => far.steps.length < near.steps.length := by
  induction p using ancestors.induct with
  | case1 p ih =>
    rw [ancestors]
    cases hparent : p.parent? with
    | none => exact List.pairwise_singleton _ _
    | some q =>
      refine List.pairwise_cons.2 ⟨fun far hfar => ?_, ih q hparent⟩
      obtain ⟨name, hname⟩ := exists_steps_of_parent? hparent
      have hle := (steps_prefix_of_mem_ancestors hfar).length_le
      rw [hname, List.length_append, List.length_singleton]
      omega

def IsBelow (p root : WrittenPath) : Prop := root.steps <+: p.steps ∧ p.steps ≠ root.steps

instance (p root : WrittenPath) : Decidable (p.IsBelow root) :=
  inferInstanceAs (Decidable (root.steps <+: p.steps ∧ p.steps ≠ root.steps))

/-- What is inside of a directory is inside of the directory's parent or is that parent. -/
theorem IsBelow.prefix_parent (h : p.IsBelow root) (hq : p.parent? = some q) :
    root.steps <+: q.steps := by
  obtain ⟨name, hname⟩ := exists_steps_of_parent? hq
  have hprefix := h.1
  rw [hname, List.prefix_concat_iff] at hprefix
  exact hprefix.resolve_left fun e => h.2 (hname.trans e.symm)

theorem IsBelow.exists_parent (h : p.IsBelow root) : ∃ q, p.parent? = some q := by
  refine Option.ne_none_iff_exists'.1 fun hnone => h.2 ?_
  have hprefix := h.1
  rw [steps_eq_nil_of_parent? hnone] at hprefix ⊢
  exact (List.prefix_nil.1 hprefix).symm

end WrittenPath

/-! ### Specifiers -/

namespace Specifier

theorem cut_eq {cs name : List Char} {rest? : Option (List Char)} (h : cut cs = (name, rest?)) :
    '/' ∉ name ∧ cs = name ++ (rest?.map ('/' :: ·)).getD [] := by
  have hspan := List.span_eq_takeWhile_dropWhile (· != '/') cs
  have hjoin := List.takeWhile_append_dropWhile (p := (· != '/')) (l := cs)
  have hname : '/' ∉ cs.takeWhile (· != '/') := fun hmem => by
    simpa using List.mem_takeWhile_imp hmem
  rw [cut, hspan] at h
  cases hrest : cs.dropWhile (· != '/') with
  | nil =>
    rw [hrest] at h hjoin
    cases h
    exact ⟨hname, hjoin.symm⟩
  | cons c rest =>
    have hslash := List.head?_dropWhile_not (· != '/') cs
    rw [hrest] at h hjoin hslash
    cases h
    obtain rfl : c = '/' := by simpa using hslash
    exact ⟨hname, hjoin.symm⟩

/-- The number of slashes in the name of a package that is asked for by a path inside of it. -/
def slashes (specifier : String) : Nat := if specifier.toList.head? = some '@' then 1 else 0

/-- The name of a package and the path inside of it make up the specifier. It is split at its first
slash, or at the second one if the name has a scope. -/
theorem package_eq (specifier : String) :
    specifier = (package specifier).1 ++ ((package specifier).2.map ("/" ++ ·)).getD "" ∧
      (package specifier).1.toList.count '/' ≤ slashes specifier ∧
      ((package specifier).2.isSome → (package specifier).1.toList.count '/' = slashes specifier) := by
  have hwhole {name : List Char} {rest? : Option (List Char)}
      (h : specifier.toList = name ++ (rest?.map ('/' :: ·)).getD []) :
      specifier = String.ofList name ++ ((rest?.map String.ofList).map ("/" ++ ·)).getD "" := by
    rw [← String.toList_inj, h]
    cases rest? <;> simp
  unfold package
  rcases hcut : cut specifier.toList with ⟨name, rest?⟩
  obtain ⟨hname, hjoin⟩ := cut_eq hcut
  have hcount : name.count '/' = 0 := List.count_eq_zero.2 hname
  dsimp only
  split
  · next scope rest hparts =>
    obtain ⟨rfl, rfl⟩ := Prod.mk.inj hparts
    rcases hinner : cut rest with ⟨inner, inner?⟩
    obtain ⟨hinnerName, hinnerJoin⟩ := cut_eq hinner
    have hslashes : slashes specifier = 1 := by
      rw [slashes, hjoin]
      rfl
    have hone : ('@' :: scope ++ '/' :: inner).count '/' = 1 := by
      rw [List.count_append, hcount, List.count_cons_self, List.count_eq_zero.2 hinnerName]
    dsimp only
    rw [String.toList_ofList, hone, hslashes]
    refine ⟨hwhole ?_, le_refl _, fun _ => rfl⟩
    rw [hjoin, hinnerJoin]
    simp
  · next hparts =>
    dsimp only
    rw [String.toList_ofList, hcount]
    refine ⟨hwhole hjoin, Nat.zero_le _, fun hsome => ?_⟩
    cases rest? with
    | none => cases hsome
    | some rest =>
      rw [slashes, hjoin, if_neg ?_]
      cases name with
      | nil => simp
      | cons c cs =>
        rintro hhead
        obtain rfl : c = '@' := by simpa using hhead
        exact hparts cs rest rfl

end Specifier

/-! ### Files of packages -/

namespace Package

variable {files : FileTree} {root start dir target file package importer : WrittenPath}

/-- What a path stands for: the file itself or, where there is none, the first one among the
candidates of the path. -/
def IsFileOf (files : FileTree) (target file : WrittenPath) : Prop :=
  files.isFile file = true ∧ (file = target ∨ files.isFile target = false ∧
    ∃ before c after, (ModulePath.ofWritten target).candidates = before ++ c :: after ∧
      file = c.written ∧ ∀ other ∈ before, files.isFile other.written = false)

theorem file?_eq_some_iff : file? files target = some file ↔ IsFileOf files target file := by
  rw [file?, IsFileOf]
  split
  · next htarget =>
    rw [Option.some_inj]
    refine ⟨fun e => ⟨e ▸ htarget, .inl e.symm⟩, fun ⟨_, h⟩ => ?_⟩
    rcases h with e | ⟨hnone, -⟩
    · exact e.symm
    · rw [htarget] at hnone
      cases hnone
  · next htarget =>
    have hnone : files.isFile target = false := Bool.eq_false_iff.2 htarget
    simp only [Option.map_eq_some_iff, List.find?_eq_some_iff_append, Bool.not_eq_true']
    constructor
    · rintro ⟨c, ⟨hfile, before, after, hsplit, hbefore⟩, rfl⟩
      exact ⟨hfile, .inr ⟨hnone, before, c, after, hsplit, rfl, hbefore⟩⟩
    · rintro ⟨hfile, rfl | ⟨-, before, c, after, hsplit, rfl, hbefore⟩⟩
      · exact absurd hfile htarget
      · exact ⟨c, ⟨hfile, before, after, hsplit, hbefore⟩, rfl⟩

theorem file?_eq_none_iff : file? files target = none ↔ ∀ file, ¬IsFileOf files target file := by
  simp only [← file?_eq_some_iff, Option.eq_none_iff_forall_ne_some, ne_eq]

/-- The file that a package is entered by. With a path inside of the package it is what that path
stands for, and without one what the first entry of a readable manifest stands for that stands for a
file at all. Where there is no such entry, it is the index file. -/
def IsEntry (files : FileTree) (package : WrittenPath) : Option String → WrittenPath → Prop
  | some inside, file => IsFileOf files (package.join inside) file
  | none, file =>
    (∃ m before entry after, Manifest.read? files package = some m ∧
      m.entries = before ++ entry :: after ∧ IsFileOf files (package.join entry) file ∧
      ∀ other ∈ before, ∀ f, ¬IsFileOf files (package.join other) f) ∨
    (∀ m, Manifest.read? files package = some m →
      ∀ entry ∈ m.entries, ∀ f, ¬IsFileOf files (package.join entry) f) ∧
        IsFileOf files (package.join "index") file

theorem entry?_eq_some_iff {inside? : Option String} :
    entry? files package inside? = some file ↔ IsEntry files package inside? file := by
  cases inside? with
  | some inside => exact file?_eq_some_iff
  | none =>
    rw [IsEntry, entry?, Option.or_eq_some_iff]
    refine or_congr ?_ (and_congr ?_ file?_eq_some_iff)
    · simp only [Option.bind_eq_some_iff, List.findSome?_eq_some_iff, file?_eq_some_iff,
        file?_eq_none_iff]
      constructor
      · rintro ⟨m, hm, before, entry, after, hsplit, hentry, hbefore⟩
        exact ⟨m, before, entry, after, hm, hsplit, hentry, hbefore⟩
      · rintro ⟨m, before, entry, after, hm, hsplit, hentry, hbefore⟩
        exact ⟨m, hm, before, entry, after, hsplit, hentry, hbefore⟩
    · simp only [Option.bind_eq_none_iff, List.findSome?_eq_none_iff, file?_eq_none_iff]

/-! ### Directories of packages -/

def place (dir : WrittenPath) (name : String) : WrittenPath := (dir.join "node_modules").join name

/-- The nearest directory that has a package, from the given one up to the root of the project. -/
structure IsNearest (files : FileTree) (root start : WrittenPath) (name : String)
    (dir : WrittenPath) : Prop where
  mem : dir ∈ start.ancestors
  inside : root.steps <+: dir.steps
  holds : files.isDirectory (place dir name) = true
  nearest : ∀ nearer ∈ start.ancestors, dir.steps.length < nearer.steps.length →
    files.isDirectory (place nearer name) = false

/-- Lookup passes all directories on the way up that are not above the root. -/
theorem lookupDirs_eq (h : root.steps <+: start.steps) : lookupDirs root start.ancestors =
    start.ancestors.filter fun dir => root.steps.isPrefixOf dir.steps := by
  induction start using WrittenPath.ancestors.induct with
  | case1 p ih =>
    rw [WrittenPath.ancestors, lookupDirs, List.filter_cons,
      if_pos (List.isPrefixOf_iff_prefix.2 h)]
    by_cases heq : p.steps = root.steps
    · rw [if_pos heq]
      refine congrArg _ (List.filter_eq_nil_iff.2 fun dir hdir hprefix => ?_).symm
      have hshorter := List.pairwise_cons.1 (WrittenPath.ancestors.eq_1 p ▸ p.pairwise_ancestors)
      have hlt := hshorter.1 dir hdir
      have hle := (List.isPrefixOf_iff_prefix.1 hprefix).length_le
      rw [heq] at hlt
      omega
    · rw [if_neg heq]
      obtain ⟨q, hq⟩ := WrittenPath.IsBelow.exists_parent ⟨h, heq⟩
      rw [hq]
      exact congrArg _ (ih q hq (WrittenPath.IsBelow.prefix_parent ⟨h, heq⟩ hq))

/-- In a list of ever smaller elements, the first one with a property is the largest one. -/
theorem find?_eq_some_iff_of_pairwise {α : Type} {p : α → Bool} {size : α → Nat} {l : List α}
    {a : α} (hl : l.Pairwise fun x y => size y < size x) :
    l.find? p = some a ↔ a ∈ l ∧ p a = true ∧ ∀ x ∈ l, size a < size x → p x = false := by
  induction l with
  | nil => simp
  | cons b l ih =>
    obtain ⟨hb, hl⟩ := List.pairwise_cons.1 hl
    cases hp : p b with
    | true =>
      rw [List.find?_cons_of_pos hp, Option.some_inj]
      constructor
      · rintro rfl
        refine ⟨List.mem_cons_self, hp, List.forall_mem_cons.2 ⟨fun h => absurd h (lt_irrefl _), ?_⟩⟩
        exact fun x hx h => absurd h (hb x hx).asymm
      · rintro ⟨hmem, -, hlarger⟩
        rcases List.mem_cons.1 hmem with rfl | hmem
        · rfl
        · rw [hlarger b List.mem_cons_self (hb a hmem)] at hp
          cases hp
    | false =>
      rw [List.find?_cons_of_neg (by rw [hp]; decide), ih hl]
      constructor
      · rintro ⟨hmem, ha, hlarger⟩
        exact ⟨List.mem_cons_of_mem _ hmem, ha, List.forall_mem_cons.2 ⟨fun _ => hp, hlarger⟩⟩
      · rintro ⟨hmem, ha, hlarger⟩
        refine ⟨(List.mem_cons.1 hmem).resolve_left ?_, ha, (List.forall_mem_cons.1 hlarger).2⟩
        rintro rfl
        rw [hp] at ha
        cases ha

theorem dir?_eq_some_iff {name : String} (hstart : importer.parent? = some start)
    (h : root.steps <+: start.steps) : dir? files root importer name = some package ↔
      ∃ dir, IsNearest files root start name dir ∧ place dir name = package := by
  have hdirs := (start.pairwise_ancestors).filter fun dir => root.steps.isPrefixOf dir.steps
  have hmem (dir : WrittenPath) :
      dir ∈ (start.ancestors.filter fun dir => root.steps.isPrefixOf dir.steps) ↔
        dir ∈ start.ancestors ∧ root.steps <+: dir.steps := by
    rw [List.mem_filter, List.isPrefixOf_iff_prefix]
  rw [dir?, hstart]
  change ((lookupDirs root start.ancestors).map (place · name)).find? files.isDirectory = _ ↔ _
  rw [lookupDirs_eq h, List.find?_map, Option.map_eq_some_iff]
  refine exists_congr fun dir => and_congr_left fun _ => ?_
  rw [find?_eq_some_iff_of_pairwise hdirs, hmem]
  constructor
  · rintro ⟨⟨hdir, hinside⟩, hholds, hnearest⟩
    refine ⟨hdir, hinside, hholds, fun nearer hnearer hlonger => ?_⟩
    refine hnearest nearer ((hmem nearer).2 ⟨hnearer, hinside.trans ?_⟩) hlonger
    exact List.prefix_of_prefix_length_le (WrittenPath.steps_prefix_of_mem_ancestors hdir)
      (WrittenPath.steps_prefix_of_mem_ancestors hnearer) hlonger.le
  · rintro ⟨hdir, hinside, hholds, hnearest⟩
    exact ⟨⟨hdir, hinside⟩, hholds, fun nearer hnearer => hnearest nearer ((hmem nearer).1 hnearer).1⟩

/-- A specifier is the name of a package and a path inside of it. For a file of a project it stands
for the file by which the nearest package of that name is entered, among those between the file and
the root of the project; without such a package, or such a file in the nearest one, for nothing. -/
theorem resolve?_nearest (h : importer.IsBelow root) (specifier : String) (file : WrittenPath) :
    let name := (Specifier.package specifier).1
    let inside? := (Specifier.package specifier).2
    (specifier = name ++ (inside?.map ("/" ++ ·)).getD "" ∧
      name.toList.count '/' ≤ Specifier.slashes specifier ∧
      (inside?.isSome → name.toList.count '/' = Specifier.slashes specifier)) ∧
    (resolve? files root importer specifier = some file ↔
      ∃ start dir, importer.parent? = some start ∧ IsNearest files root start name dir ∧
        IsEntry files (place dir name) inside? file) := by
  intro name inside?
  refine ⟨Specifier.package_eq specifier, ?_⟩
  obtain ⟨start, hstart⟩ := h.exists_parent
  have hdir (package : WrittenPath) : dir? files root importer name = some package ↔
      ∃ dir, IsNearest files root start name dir ∧ place dir name = package :=
    dir?_eq_some_iff hstart (h.prefix_parent hstart)
  change (dir? files root importer name).bind (fun package => entry? files package inside?) =
    some file ↔ _
  rw [Option.bind_eq_some_iff]
  constructor
  · rintro ⟨package, hpackage, hentry⟩
    obtain ⟨dir, hnearest, rfl⟩ := (hdir package).1 hpackage
    exact ⟨start, dir, hstart, hnearest, entry?_eq_some_iff.1 hentry⟩
  · rintro ⟨start', dir, hstart', hnearest, hentry⟩
    obtain rfl : start = start' := Option.some.inj (hstart.symm.trans hstart')
    exact ⟨_, (hdir _).2 ⟨dir, hnearest, rfl⟩, entry?_eq_some_iff.2 hentry⟩

/-- The package in the directory `src` is taken, by the second entry of its manifest, and not those
in the root of the project and above it. -/
theorem resolve?_nearest_shadowed :
    let within (dirs : List String) := dirs ++ ["node_modules", "@s", "p"]
    let files : FileTree := ⟨
      (["r", "src", "deep", "main.ts"], .file (some "")) ::
      (within ["r", "src"] ++ ["package.json"],
        .file (some "\x7b\"main\":\"gone\",\"module\":\"lib\"\x7d")) ::
      (within ["r", "src"] ++ ["lib", "index.js"], .file (some "")) ::
      (within ["r"] ++ ["index.ts"], .file (some "")) ::
      (within [] ++ ["index.ts"], .file (some "")) ::
      [["r"], ["r", "src"], ["r", "src", "deep"], ["r", "src", "node_modules"],
        ["r", "src", "node_modules", "@s"], within ["r", "src"], within ["r", "src"] ++ ["lib"],
        ["r", "node_modules"], ["r", "node_modules", "@s"], within ["r"], ["node_modules"],
        ["node_modules", "@s"], within []].map fun dir => (dir, .directory)⟩
    let root : WrittenPath := ⟨["r"]⟩
    let importer : WrittenPath := ⟨["r", "src", "deep", "main.ts"]⟩
    let file : WrittenPath := ⟨within ["r", "src"] ++ ["lib", "index.js"]⟩
    importer.IsBelow root ∧ resolve? files root importer "@s/p" = some file ∧
      ∃ start dir, importer.parent? = some start ∧
        IsNearest files root start (Specifier.package "@s/p").1 dir ∧
        IsEntry files (place dir (Specifier.package "@s/p").1)
          (Specifier.package "@s/p").2 file := by
  intro within files root importer file
  have hbelow : importer.IsBelow root := by decide +kernel
  have hfile : resolve? files root importer "@s/p" = some file := by decide +kernel
  exact ⟨hbelow, hfile, (resolve?_nearest hbelow "@s/p" file).2.1 hfile⟩

end Package

end TypeStrip
