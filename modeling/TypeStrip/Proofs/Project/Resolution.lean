import TypeStrip.Project.Import

/-!
What a resolver finds on disk, and whether it can be read. A resolver answers with a path that names
a file; the file itself is only looked up afterwards, and not for a path with a recognized extension.
-/
namespace TypeStrip

/-! ### Paths as specifiers -/

namespace Specifier

/-- A text that stands for a path: from the directory of the importing module, or from the root. -/
def IsPath (specifier : String) : Prop :=
  isRelative specifier = true ∨ WrittenPath.isAbsolute specifier = true

theorem head?_of_startsWith {specifier start : String} {c : Char} (h : startsWith specifier start = true)
    (hc : start.toList.head? = some c) : specifier.toList.head? = some c := by
  obtain ⟨rest, hrest⟩ := List.isPrefixOf_iff_prefix.1 h
  obtain ⟨cs, hcs⟩ := List.head?_eq_some_iff.1 hc
  rw [← hrest, hcs]
  rfl

theorem IsPath.head? {specifier : String} (h : IsPath specifier) :
    specifier.toList.head? = some '.' ∨ specifier.toList.head? = some '/' := by
  rcases h with h | h
  · simp only [isRelative, Bool.or_eq_true, beq_iff_eq] at h
    rcases h with ((rfl | rfl) | h) | h
    · exact .inl (by decide)
    · exact .inl (by decide)
    · exact .inl (head?_of_startsWith h (by decide))
    · exact .inl (head?_of_startsWith h (by decide))
  · exact .inr (beq_iff_eq.1 h)

/-- The modules of the host are not written as paths. -/
theorem IsPath.not_isHostModule {specifier : String} (h : IsPath specifier) :
    isHostModule specifier = false := by
  have hnames : ∀ name ∈ hostModules, name.toList.head? ≠ some '.' ∧ name.toList.head? ≠ some '/' := by
    decide
  rw [isHostModule, Bool.or_eq_false_iff]
  constructor
  · refine Bool.eq_false_iff.2 fun hstart => ?_
    have hhead : specifier.toList.head? = some 'n' := head?_of_startsWith hstart (by decide)
    rcases h.head? with hdot | hslash
    · rw [hdot] at hhead
      cases hhead
    · rw [hslash] at hhead
      cases hhead
  · refine Bool.eq_false_iff.2 fun hcontains => ?_
    have hmem := List.contains_iff_mem.1 hcontains
    rcases h.head? with hdot | hslash
    · exact (hnames _ hmem).1 hdot
    · exact (hnames _ hmem).2 hslash

end Specifier

/-! ### Files that paths name -/

namespace FileTree

variable {files : FileTree} {path file : ModulePath}

theorem names_iff : files.names path = true ↔
    ∃ file ∈ path :: path.candidates, files.isFile file.written = true := by
  rw [names, Bool.or_eq_true, List.any_eq_true]
  simp only [List.mem_cons, exists_eq_or_imp]

/-- The file that a path names is the first one among the path and its candidates. -/
theorem namedFile_eq_ok_iff : files.namedFile path = .ok file ↔
    (path :: path.candidates).find? (fun c => files.isFile c.written) = some file := by
  rw [namedFile, List.find?_cons]
  cases files.isFile path.written with
  | true => simp
  | false =>
    rw [if_neg (by decide)]
    cases path.candidates.find? fun c => files.isFile c.written <;> simp

theorem isFile_of_namedFile (h : files.namedFile path = .ok file) : files.isFile file.written = true :=
  List.find?_some (p := fun c : ModulePath => files.isFile c.written) (namedFile_eq_ok_iff.1 h)

theorem exists_namedFile (h : files.names path = true) : ∃ file, files.namedFile path = .ok file := by
  obtain ⟨file, hmem, hfile⟩ := names_iff.1 h
  have hsome : ((path :: path.candidates).find? fun c => files.isFile c.written).isSome = true :=
    List.find?_isSome.2 ⟨file, hmem, hfile⟩
  obtain ⟨found, hfound⟩ := Option.isSome_iff_exists.1 hsome
  exact ⟨found, namedFile_eq_ok_iff.2 hfound⟩

/-- A path that names a file stands for something, which is a file unless the path has a recognized
extension and only its candidates are files. -/
theorem exists_moduleFile (h : files.names path = true) : ∃ file, files.moduleFile path = .ok file ∧
    (files.isFile file.written = true ↔
      path.isRecognized = false ∨ files.isFile path.written = true) := by
  unfold moduleFile
  cases hrecognized : path.isRecognized with
  | true => exact ⟨path, rfl, by simp⟩
  | false =>
    obtain ⟨file, hfile⟩ := exists_namedFile h
    exact ⟨file, hfile, iff_of_true (isFile_of_namedFile hfile) (.inl rfl)⟩

end FileTree

/-! ### Resolution on disk -/

namespace Resolver

variable {root? : Option WrittenPath} {files : FileTree} {importer path : ModulePath} {specifier : String}

def target (importer : ModulePath) (specifier : String) : ModulePath :=
  if Specifier.isRelative specifier then importer.sibling specifier else .ofText specifier

theorem onDisk_eq_named? (h : Specifier.IsPath specifier) :
    onDisk root? files importer specifier = named? files (target importer specifier) := by
  rw [onDisk, h.not_isHostModule, if_neg (by decide), target]
  split
  · rfl
  · rename_i hrelative
    rw [if_pos (h.resolve_left hrelative)]

/-- The resolver answers for a path with the path itself if that names a file. The next step then
finds a file, unless the path has a recognized extension and only its candidates are files; and
without an answer neither the path nor any of its candidates is a file. -/
theorem onDisk_spec (h : Specifier.IsPath specifier) :
    (∀ path, onDisk root? files importer specifier = some path →
      path = target importer specifier ∧ ∃ file, files.moduleFile path = .ok file ∧
        (files.isFile file.written = true ↔
          path.isRecognized = false ∨ files.isFile path.written = true)) ∧
      (onDisk root? files importer specifier = none →
        ∀ file ∈ target importer specifier :: (target importer specifier).candidates,
          files.isFile file.written = false) := by
  rw [onDisk_eq_named? h, named?]
  by_cases hnames : files.names (target importer specifier) = true
  · rw [if_pos hnames]
    refine ⟨fun path hpath => ?_, nofun⟩
    cases hpath
    exact ⟨rfl, FileTree.exists_moduleFile hnames⟩
  · rw [if_neg hnames]
    refine ⟨nofun, fun _ file hmem => Bool.eq_false_iff.2 fun hfile => hnames ?_⟩
    exact FileTree.names_iff.2 ⟨file, hmem, hfile⟩

/-- A directory `a.ts` with an index file is taken for a file. -/
example :
    let files : FileTree := ⟨[(["a.ts"], .directory), (["a.ts", "index.ts"], .file (some ""))]⟩
    onDisk none files ⟨["main.ts"]⟩ "./a.ts" = some ⟨["a.ts"]⟩ ∧
      files.moduleFile ⟨["a.ts"]⟩ = .ok ⟨["a.ts"]⟩ ∧ files.isDirectory ⟨["a.ts"]⟩ = true :=
  ⟨by decide +kernel, rfl, by decide +kernel⟩

end Resolver

end TypeStrip
