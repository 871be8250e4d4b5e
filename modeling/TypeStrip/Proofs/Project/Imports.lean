import Mathlib.Data.List.Forall2
import Mathlib.Logic.Relation
import Mathlib.Order.Lattice.Nat
import TypeStrip.Project.Discovery
import TypeStrip.Proofs.Path.Normal

/-! Which modules on disk import which. -/
namespace TypeStrip

section
variable {α β ε : Type} {f : α → Except ε β} {as : List α} {e : ε}

theorem bind_eq_ok_iff {x : Except ε α} {b : β} :
    x >>= f = .ok b ↔ ∃ a, x = .ok a ∧ f a = .ok b := by
  cases x with
  | error e => exact iff_of_false nofun nofun
  | ok a =>
    constructor
    · intro h
      exact ⟨a, rfl, h⟩
    · rintro ⟨a', ha, h⟩
      cases ha
      exact h

theorem bind_eq_error_iff {x : Except ε α} :
    x >>= f = .error e ↔ x = .error e ∨ ∃ a, x = .ok a ∧ f a = .error e := by
  cases x with
  | error e' =>
    refine ⟨fun h => ?_, fun h => ?_⟩
    · cases h
      exact .inl rfl
    · rcases h with h | ⟨a, ha, -⟩
      · cases h
        rfl
      · cases ha
  | ok a =>
    refine ⟨fun h => .inr ⟨a, rfl, h⟩, fun h => ?_⟩
    rcases h with h | ⟨a', ha, h⟩
    · cases h
    · cases ha
      exact h

/-- A list of steps that may fail succeeds if each of them does. -/
theorem mapM_eq_ok_iff {bs : List β} :
    as.mapM f = .ok bs ↔ List.Forall₂ (fun a b => f a = .ok b) as bs := by
  induction as generalizing bs with
  | nil =>
    rw [List.mapM_nil, List.forall₂_nil_left_iff]
    constructor
    · intro h
      cases h
      rfl
    · rintro rfl
      rfl
  | cons a as ih =>
    rw [List.mapM_cons, List.forall₂_cons_left_iff, bind_eq_ok_iff]
    constructor
    · rintro ⟨b, hb, h⟩
      obtain ⟨bs', hbs', h⟩ := bind_eq_ok_iff.1 h
      cases h
      exact ⟨b, bs', hb, ih.1 hbs', rfl⟩
    · rintro ⟨b, bs', hb, hbs', rfl⟩
      exact ⟨b, hb, bind_eq_ok_iff.2 ⟨bs', ih.2 hbs', rfl⟩⟩

theorem mem_iff_of_forall₂ {bs : List β} (h : List.Forall₂ (fun a b => f a = .ok b) as bs) {b : β} :
    b ∈ bs ↔ ∃ a ∈ as, f a = .ok b := by
  induction h with
  | nil => simp
  | cons hab _ ih =>
    rw [List.mem_cons, ih]
    constructor
    · rintro (rfl | ⟨a, ha, he⟩)
      · exact ⟨_, List.mem_cons_self, hab⟩
      · exact ⟨a, List.mem_cons_of_mem _ ha, he⟩
    · rintro ⟨a, ha, he⟩
      rcases List.mem_cons.1 ha with rfl | ha
      · rw [hab] at he
        cases he
        exact .inl rfl
      · exact .inr ⟨a, ha, he⟩

/-- Steps of two parts succeed if all first parts do, and then all second parts. -/
theorem forall₂_bind_iff {γ : Type} {g : β → Except ε γ} {cs : List γ} :
    List.Forall₂ (fun a c => f a >>= g = .ok c) as cs ↔
      ∃ bs, List.Forall₂ (fun a b => f a = .ok b) as bs ∧
        List.Forall₂ (fun b c => g b = .ok c) bs cs := by
  induction as generalizing cs with
  | nil =>
    rw [List.forall₂_nil_left_iff]
    constructor
    · rintro rfl
      exact ⟨[], .nil, .nil⟩
    · rintro ⟨bs, hbs, hcs⟩
      cases hbs
      exact List.forall₂_nil_left_iff.1 hcs
  | cons a as ih =>
    rw [List.forall₂_cons_left_iff]
    constructor
    · rintro ⟨c, cs', hc, hcs, rfl⟩
      obtain ⟨b, hb, hc⟩ := bind_eq_ok_iff.1 hc
      obtain ⟨bs, hbs, hcs⟩ := ih.1 hcs
      exact ⟨b :: bs, .cons hb hbs, .cons hc hcs⟩
    · rintro ⟨bs, hbs, hcs⟩
      cases hbs with
      | cons hb hbs =>
        cases hcs with
        | cons hc hcs =>
          exact ⟨_, _, bind_eq_ok_iff.2 ⟨_, hb, hc⟩, ih.2 ⟨_, hbs, hcs⟩, rfl⟩

/-- It fails with the first of them that does. -/
theorem mapM_eq_error_iff :
    as.mapM f = .error e ↔ ∃ before a after, as = before ++ a :: after ∧
      (∀ b ∈ before, ∃ c, f b = .ok c) ∧ f a = .error e := by
  induction as with
  | nil =>
    refine iff_of_false nofun ?_
    rintro ⟨before, a, after, h, -⟩
    simp at h
  | cons a as ih =>
    rw [List.mapM_cons, bind_eq_error_iff]
    constructor
    · rintro (h | ⟨b, hb, h⟩)
      · exact ⟨[], a, as, rfl, List.forall_mem_nil _, h⟩
      · rcases bind_eq_error_iff.1 h with h | ⟨bs, -, h⟩
        · obtain ⟨before, a', after, rfl, hbefore, he⟩ := ih.1 h
          exact ⟨a :: before, a', after, rfl, List.forall_mem_cons.2 ⟨⟨b, hb⟩, hbefore⟩, he⟩
        · cases h
    · rintro ⟨before, a', after, hsplit, hbefore, he⟩
      cases before with
      | nil =>
        cases hsplit
        exact .inl he
      | cons b before =>
        cases hsplit
        obtain ⟨⟨c, hc⟩, hbefore⟩ := List.forall_mem_cons.1 hbefore
        have herror := ih.2 ⟨before, a', after, rfl, hbefore, he⟩
        exact .inr ⟨c, hc, bind_eq_error_iff.2 (.inl herror)⟩

end

/-! ### Resolvers -/

/-- A resolver that answers with simplified paths. Paths are simplified when they are made, so that
there are no others. -/
def Resolver.IsNormal (resolve : Resolver) : Prop :=
  ∀ files importer specifier path, resolve files importer specifier = some path → path.IsNormal

theorem Resolver.isNormal_onDisk (root? : Option WrittenPath) : (onDisk root?).IsNormal := by
  have hnamed (files : FileTree) {p path : ModulePath} (hp : p.IsNormal)
      (h : named? files p = some path) : path.IsNormal := by
    unfold named? at h
    split at h
    · cases h
      exact hp
    · cases h
  intro files importer specifier path h
  unfold onDisk at h
  split at h
  · cases h
  · split at h
    · exact hnamed files (ModulePath.isNormal_join _ _) h
    · split at h
      · exact hnamed files (ModulePath.isNormal_ofWritten _) h
      · obtain ⟨root, -, h⟩ := Option.bind_eq_some_iff.1 h
        obtain ⟨found, -, h⟩ := Option.bind_eq_some_iff.1 h
        cases h
        exact ModulePath.isNormal_ofWritten _

theorem ResolverTable.isNormal_resolver {table : ResolverTable}
    (h : ∀ entry ∈ table.entries, entry.2.IsNormal) : table.resolver.IsNormal := by
  have hlookup {key : Option ModulePath × String} {path : ModulePath}
      (hpath : table.entries.lookup key = some path) : path.IsNormal := by
    obtain ⟨before, after, hentries, -⟩ := List.lookup_eq_some_iff.1 hpath
    exact h (key, path) (hentries ▸ List.mem_append_right before List.mem_cons_self)
  intro files importer specifier path hpath
  rcases Option.or_eq_some_iff.1 hpath with hpath | ⟨-, hpath⟩
  · exact hlookup hpath
  · exact hlookup hpath

namespace FileTree

variable {files : FileTree} {resolve : Resolver} {path importer file : ModulePath}
  {specifier : String}

theorem isNormal_moduleFile (hp : path.IsNormal) (h : files.moduleFile path = .ok file) :
    file.IsNormal := by
  unfold moduleFile namedFile at h
  split at h
  · cases h
    exact hp
  · split at h
    · cases h
      exact hp
    · split at h
      · rename_i found hfound
        cases h
        exact hp.candidates _ (List.mem_of_find?_eq_some hfound)
      · cases h

theorem isNormal_imported (hr : resolve.IsNormal)
    (h : files.imported resolve importer specifier = .ok file) : file.IsNormal := by
  unfold imported at h
  split at h
  · rename_i path hpath
    exact isNormal_moduleFile (hr files importer specifier path hpath) h
  · cases h

theorem read_of_readModule {source : String} (h : files.readModule path = .ok source) :
    files.read path.written = .ok source := by
  unfold readModule at h
  split at h
  · rename_i content hread
    cases h
    exact hread
  · cases h

/-! ### Imports on disk -/

/-- A module on disk imports another one: one of its specifiers stands for it. -/
def Imports (files : FileTree) (resolve : Resolver) (a b : ModulePath) : Prop :=
  ∃ source specifiers, files.readModule a = .ok source ∧ scanImports a source = .ok specifiers ∧
    ∃ specifier ∈ specifiers, files.imported resolve a specifier = .ok b

/-- A module leads to another one by imports, or is the same. -/
abbrev Reaches (files : FileTree) (resolve : Resolver) : ModulePath → ModulePath → Prop :=
  Relation.ReflTransGen (files.Imports resolve)

/-- No module that an entry leads to leads back to itself. -/
def IsAcyclicFrom (files : FileTree) (resolve : Resolver) (entry : ModulePath) : Prop :=
  ∀ p, files.Reaches resolve entry p → ¬Relation.TransGen (files.Imports resolve) p p

/-- A module that an entry leads to cannot be read or parsed, or an import of it not resolved. -/
def HasFault (files : FileTree) (resolve : Resolver) (entry : ModulePath) (fault : LoadFault) :
    Prop :=
  ∃ p, files.Reaches resolve entry p ∧ files.importNode resolve p = .error fault

structure IsNodeOf (files : FileTree) (resolve : Resolver) (node : ImportNode) : Prop where
  scanned : ∃ source, files.readModule node.path = .ok source ∧
    scanImports node.path source = .ok node.specifiers
  resolved : List.Forall₂
    (fun specifier dependency => files.imported resolve node.path specifier = .ok dependency)
    node.specifiers node.dependencies

theorem importNode_eq_ok_iff {node : ImportNode} :
    files.importNode resolve path = .ok node ↔ node.path = path ∧ files.IsNodeOf resolve node := by
  rw [importNode, bind_eq_ok_iff]
  constructor
  · rintro ⟨source, hsource, h⟩
    obtain ⟨specifiers, hscan, h⟩ := bind_eq_ok_iff.1 h
    obtain ⟨dependencies, hresolved, h⟩ := bind_eq_ok_iff.1 h
    cases h
    exact ⟨rfl, ⟨source, hsource, hscan⟩, mapM_eq_ok_iff.1 hresolved⟩
  · rintro ⟨rfl, ⟨source, hsource, hscan⟩, hresolved⟩
    refine ⟨source, hsource, bind_eq_ok_iff.2 ⟨node.specifiers, hscan, ?_⟩⟩
    exact bind_eq_ok_iff.2 ⟨node.dependencies, mapM_eq_ok_iff.2 hresolved, rfl⟩

theorem IsNodeOf.imports_iff {node : ImportNode} (h : files.IsNodeOf resolve node)
    {b : ModulePath} : files.Imports resolve node.path b ↔ b ∈ node.dependencies := by
  obtain ⟨⟨source, hsource, hscan⟩, hresolved⟩ := h
  rw [mem_iff_of_forall₂ hresolved]
  constructor
  · rintro ⟨source', specifiers, hsource', hscan', himported⟩
    cases hsource.symm.trans hsource'
    cases hscan.symm.trans hscan'
    exact himported
  · intro himported
    exact ⟨source, node.specifiers, hsource, hscan, himported⟩

theorem Imports.isNormal (hr : resolve.IsNormal) {a b : ModulePath}
    (h : files.Imports resolve a b) : b.IsNormal := by
  obtain ⟨source, specifiers, -, -, specifier, -, himported⟩ := h
  exact isNormal_imported hr himported

theorem Reaches.isNormal (hr : resolve.IsNormal) {a b : ModulePath} (ha : a.IsNormal)
    (h : files.Reaches resolve a b) : b.IsNormal := by
  cases h with
  | refl => exact ha
  | tail _ himports => exact himports.isNormal hr

/-! ### Distances -/

variable {entry p : ModulePath} {n : Nat}

/-- A module leads to another one by a number of imports. -/
inductive LeadsIn (files : FileTree) (resolve : Resolver) (entry : ModulePath) :
    Nat → ModulePath → Prop where
  | here : LeadsIn files resolve entry 0 entry
  | next {n : Nat} {a b : ModulePath} : LeadsIn files resolve entry n a →
      files.Imports resolve a b → LeadsIn files resolve entry (n + 1) b

noncomputable def distance (files : FileTree) (resolve : Resolver) (entry p : ModulePath) : Nat :=
  sInf {n | files.LeadsIn resolve entry n p}

theorem LeadsIn.distance_le (h : files.LeadsIn resolve entry n p) :
    files.distance resolve entry p ≤ n :=
  Nat.sInf_le h

theorem LeadsIn.reaches (h : files.LeadsIn resolve entry n p) : files.Reaches resolve entry p := by
  induction h with
  | here => exact .refl
  | next _ himports ih => exact ih.tail himports

theorem Reaches.leadsIn (h : files.Reaches resolve entry p) :
    files.LeadsIn resolve entry (files.distance resolve entry p) p := by
  have hsome : ∃ n, files.LeadsIn resolve entry n p := by
    induction h with
    | refl => exact ⟨0, .here⟩
    | tail _ himports ih =>
      obtain ⟨n, hn⟩ := ih
      exact ⟨n + 1, hn.next himports⟩
  exact Nat.sInf_mem hsome

/-- What a module imports is at most one import farther away. -/
theorem Imports.distance_le {a b : ModulePath} (h : files.Imports resolve a b)
    (ha : files.Reaches resolve entry a) :
    files.distance resolve entry b ≤ files.distance resolve entry a + 1 :=
  (ha.leadsIn.next h).distance_le

/-- Without cycles, no trail of imports is longer than there are files: it meets no module twice,
and all of them but the last are read. -/
theorem LeadsIn.le_fileCount (hacyclic : files.IsAcyclicFrom resolve entry)
    (hentry : entry.IsNormal) (hresolve : resolve.IsNormal)
    (h : files.LeadsIn resolve entry n p) : n ≤ files.fileCount := by
  have htrail : ∃ trail : List ModulePath, trail.length = n ∧ trail.Nodup ∧
      ∀ a ∈ trail, files.Reaches resolve entry a ∧ Relation.TransGen (files.Imports resolve) a p := by
    induction h with
    | here => exact ⟨[], rfl, List.nodup_nil, List.forall_mem_nil _⟩
    | @next n a b hn himports ih =>
      obtain ⟨trail, hlength, hdistinct, htrail⟩ := ih
      have hnew : a ∉ trail := fun ha => hacyclic a (htrail a ha).1 (htrail a ha).2
      refine ⟨a :: trail, by rw [List.length_cons, hlength], hdistinct.cons hnew, ?_⟩
      refine List.forall_mem_cons.2 ⟨⟨hn.reaches, .single himports⟩, fun q hq => ?_⟩
      exact ⟨(htrail q hq).1, (htrail q hq).2.tail himports⟩
  obtain ⟨trail, rfl, hdistinct, htrail⟩ := htrail
  refine length_le_fileCount hdistinct fun a ha => ⟨(htrail a ha).1.isNormal hresolve hentry, ?_⟩
  obtain ⟨b, ⟨source, -, hsource, -⟩, -⟩ := Relation.TransGen.head'_iff.1 (htrail a ha).2
  exact ⟨source, read_of_readModule hsource⟩

/-! ### A criterion -/

def importList (files : FileTree) (resolve : Resolver) (path : ModulePath) : List ModulePath :=
  match files.readModule path >>= scanImports path with
  | .ok specifiers => specifiers.filterMap fun s => (files.imported resolve path s).toOption
  | .error _ => []

theorem mem_importList {a b : ModulePath} (h : files.Imports resolve a b) :
    b ∈ files.importList resolve a := by
  obtain ⟨source, specifiers, hsource, hscan, specifier, hspecifier, himported⟩ := h
  have hspecifiers : (files.readModule a >>= scanImports a) = .ok specifiers :=
    bind_eq_ok_iff.2 ⟨source, hsource, hscan⟩
  rw [importList, hspecifiers]
  refine List.mem_filterMap.2 ⟨specifier, hspecifier, ?_⟩
  rw [himported]
  rfl

/-- Where all imports among some modules lead down, there is no cycle. -/
theorem isAcyclicFrom_of_rank (paths : List ModulePath) (rank : ModulePath → Nat)
    (hentry : entry ∈ paths)
    (hdown : ∀ a ∈ paths, ∀ b ∈ files.importList resolve a, b ∈ paths ∧ rank b < rank a) :
    files.IsAcyclicFrom resolve entry := by
  have hstep {a b : ModulePath} (ha : a ∈ paths) (h : files.Imports resolve a b) :
      b ∈ paths ∧ rank b < rank a := hdown a ha b (mem_importList h)
  have hleads {a b : ModulePath} (ha : a ∈ paths)
      (h : Relation.TransGen (files.Imports resolve) a b) : b ∈ paths ∧ rank b < rank a := by
    induction h with
    | single himports => exact hstep ha himports
    | tail _ himports ih =>
      obtain ⟨hb, hlt⟩ := hstep ih.1 himports
      exact ⟨hb, hlt.trans ih.2⟩
  intro p hp hcycle
  have hin : p ∈ paths := by
    rcases Relation.reflTransGen_iff_eq_or_transGen.1 hp with rfl | hp
    · exact hentry
    · exact (hleads hentry hp).1
  exact Nat.lt_irrefl _ (hleads hin hcycle).2

end FileTree

end TypeStrip
