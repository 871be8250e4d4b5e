import TypeStrip.Project.Require
import TypeStrip.Proofs.Mentions.Lowering
import TypeStrip.Proofs.Project.Calls

/-!
What a module requires when it runs. Every import is answered by one of its dependencies; a module
that is only exported again is required too, but is no dependency.
-/
namespace TypeStrip
open Lowering Code

/-- A re-export requires a module that the module does not import. -/
theorem requires_reexport :
    ∃ p, parseNamed "export * from './a'" "main.ts" = .ok p ∧
      "./a" ∈ requiresStmts (lowerProgram {} p) ∧ "./a" ∉ p.importSpecifiers := by
  have hcode : (parseNamed "export * from './a'" "main.ts").toOption.map
      (fun p => (requiresStmts (lowerProgram {} p), p.importSpecifiers)) = some (["./a"], []) := by
    decide +kernel
  cases hp : parseNamed "export * from './a'" "main.ts" with
  | error failure =>
    rw [hp] at hcode
    cases hcode
  | ok p =>
    rw [hp] at hcode
    obtain ⟨hrequires, himports⟩ := Prod.mk.inj (Option.some.inj hcode)
    refine ⟨p, rfl, ?_, ?_⟩
    · rw [hrequires]
      exact List.mem_cons_self
    · rw [himports]
      exact List.not_mem_nil

/-- The specifiers of imports and re-exports. Names do not matter here. -/
private def Program.Specifies (p : Program) : Mention → Prop
  | .module source => source ∈ p.importSpecifiers ∨ source ∈ p.reexportSpecifiers
  | .name _ => True

/-- What the code of a module requires is imported or exported again by the module. -/
theorem Program.requires_lowerProgram (p : Program) (options : CompilerOptions)
    {specifier : String} (h : specifier ∈ requiresStmts (lowerProgram options p)) :
    specifier ∈ p.importSpecifiers ∨ specifier ∈ p.reexportSpecifiers := by
  have hS : Admits p.Specifies (contextOf options p) :=
    ⟨trivial, trivial, trivial, fun _ _ _ => trivial, fun _ _ => trivial⟩
  refine allowed_lowerProgram hS (fun m hm => ?_) _ (module_mem_mentionsOfStmts h)
  cases m with
  | module source => exact p.module_mem_mentionsIn hm
  | name => trivial

namespace ModuleTree

variable {files : FileTree} {resolve : Resolver} {m t d : ModuleTree} {specifier : String}

theorem required_of_imported {file : ModulePath}
    (hfile : files.imported resolve m.path specifier = .ok file)
    (hd : m.dependencies.find? (fun d => d.path == file) = some d) :
    m.required files resolve specifier = .ok d := by
  unfold FileTree.imported at hfile
  rw [required]
  cases hpath : resolve files m.path specifier with
  | none =>
    rw [hpath] at hfile
    cases hfile
  | some path =>
    rw [hpath] at hfile
    dsimp only at hfile ⊢
    rw [hfile]
    dsimp only
    rw [hd]

/-- A module that holds its imports is given one of its dependencies for each of them: the first of
those that have the path that the import stands for. -/
theorem HoldsImports.required {p : Program} (h : m.HoldsImports files resolve)
    (hp : parseNamed m.source m.path.text = .ok p) (hs : specifier ∈ p.importSpecifiers) :
    ∃ d ∈ m.dependencies, m.required files resolve specifier = .ok d ∧
      m.IsImport files resolve specifier d := by
  obtain ⟨specifiers, hscan, himports⟩ := h
  rw [scanImports, hp] at hscan
  cases hscan
  obtain ⟨i, hi, rfl⟩ := List.getElem_of_mem hs
  have hi' : i < m.dependencies.length := himports.length_eq ▸ hi
  have himport := himports.get hi hi'
  have hsome : (m.dependencies.find? fun d => d.path == m.dependencies[i].path).isSome := by
    rw [List.find?_isSome]
    exact ⟨_, List.getElem_mem hi', beq_self_eq_true _⟩
  obtain ⟨d, hd⟩ := Option.isSome_iff_exists.1 hsome
  have hpath : d.path = m.dependencies[i].path := by simpa using List.find?_some hd
  have hmem := List.mem_of_find?_eq_some hd
  obtain ⟨j, hj, rfl⟩ := List.getElem_of_mem hmem
  have hfound := himports.get (himports.length_eq ▸ hj) hj
  refine ⟨_, hmem, required_of_imported himport.path hd, ?_⟩
  exact ⟨himport.path.trans (congrArg Except.ok hpath.symm), hfound.source, hfound.options⟩

theorem of_at?_of_transpile (h : m.transpile files resolve = .ok t) {address : List Nat}
    (hd : t.at? address = some d) : d.IsTranspiled ∧ d.HoldsImports files resolve := by
  have hmakes : (ModuleCall.transpile files resolve).Makes m t := ModuleCall.makes_of_result h
  cases address with
  | nil =>
    cases hd
    exact ⟨hmakes.code, hmakes.built.here⟩
  | cons i address => exact hmakes.built.below i address d hd

theorem IsTranspiled.exists_program (h : m.IsTranspiled) :
    ∃ p, parseNamed m.source m.path.text = .ok p ∧ m.code = some (p.emit m.options) := by
  obtain ⟨code, hcode, htranspile⟩ := h
  cases hp : parseNamed m.source m.path.text with
  | error failure =>
    rw [TypeStrip.transpile, hp] at htranspile
    cases htranspile
  | ok p =>
    rw [TypeStrip.transpile, hp] at htranspile
    cases htranspile
    exact ⟨p, rfl, hcode⟩

/-- All that the code of a module requires is imported by the module, or only exported again. Once
it is transpiled, it and all modules below it are given a dependency for everything that they
import: the file that was loaded for it. -/
theorem transpile_answers_imports :
    (∀ (p : Program) (options : CompilerOptions),
      ∀ specifier ∈ requiresStmts (lowerProgram options p),
        specifier ∈ p.importSpecifiers ∨ specifier ∈ p.reexportSpecifiers) ∧
      ∀ files resolve m t, transpile files resolve m = .ok t →
        ∀ address d, t.at? address = some d → ∃ p, parseNamed d.source d.path.text = .ok p ∧
          d.code = some (Code.text (lowerProgram d.options p)) ∧
          ∀ specifier ∈ p.importSpecifiers, ∃ found ∈ d.dependencies,
            d.required files resolve specifier = .ok found ∧
              d.IsImport files resolve specifier found := by
  refine ⟨fun p options specifier hs => p.requires_lowerProgram options hs, ?_⟩
  intro files resolve m t h address d hd
  obtain ⟨htranspiled, hholds⟩ := of_at?_of_transpile h hd
  obtain ⟨p, hp, hcode⟩ := htranspiled.exists_program
  exact ⟨p, hp, hcode, fun specifier hs => hholds.required hp hs⟩

theorem transpile_answers_imports_pair :
    let files : FileTree := ⟨[(["a.ts"], .file (some "export const x = 1"))]⟩
    let table : ResolverTable := ⟨[((none, "a"), ⟨["a"]⟩)]⟩
    let m : ModuleTree := ⟨⟨["main.ts"]⟩, "import { x } from 'a'; f(x)", {}, none, []⟩
    ∃ t p found, m.transpile files table.resolver = .ok t ∧
      parseNamed t.source t.path.text = .ok p ∧
      "a" ∈ requiresStmts (lowerProgram t.options p) ∧
      ("a" ∈ p.importSpecifiers ∨ "a" ∈ p.reexportSpecifiers) ∧ found ∈ t.dependencies ∧
      t.required files table.resolver "a" = .ok found := by
  intro files table m
  obtain ⟨hrequires, hanswers⟩ := transpile_answers_imports
  have hcode : ((m.transpile files table.resolver).toOption.bind fun t =>
      (parseNamed t.source t.path.text).toOption.map fun p =>
        (requiresStmts (lowerProgram t.options p), p.importSpecifiers)) =
      some (["a"], ["a"]) := by
    decide +kernel
  cases ht : m.transpile files table.resolver with
  | error fault =>
    rw [ht] at hcode
    cases hcode
  | ok t =>
    obtain ⟨p, hp, -, himports⟩ := hanswers files table.resolver m t ht [] t rfl
    rw [ht, Except.toOption, Option.bind_some, hp] at hcode
    obtain ⟨hcode, hspecifiers⟩ := Prod.mk.inj (Option.some.inj hcode)
    have hmem : "a" ∈ requiresStmts (lowerProgram t.options p) := hcode ▸ List.mem_cons_self
    obtain ⟨found, hfound, hrequired, -⟩ := himports "a" (hspecifiers ▸ List.mem_cons_self)
    exact ⟨t, p, found, rfl, hp, hmem, hrequires p t.options "a" hmem, hfound, hrequired⟩

end ModuleTree

end TypeStrip
