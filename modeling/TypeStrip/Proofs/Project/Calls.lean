import TypeStrip.Project.Call
import TypeStrip.Proofs.Project.Unfolding

/-!
What holds of a module over all calls on it. A call that fails changes nothing, and one that
succeeds leaves one dependency for each import, in order, for the module and everywhere below it.
-/
namespace TypeStrip

namespace ModuleCall

/-! ### Steps -/

section
variable {α β : Type} (m : ModuleTree)

theorem ok_bind (a : α) (f : α → Except LoadFault β) : Except.ok a >>= f = f a := rfl

theorem on_bind (s : Steps α) (f : α → Steps β) :
    (s >>= f).on m = match s.on m with
      | (.ok a, m') => (f a).on m'
      | (.error fault, m') => (.error fault, m') := by
  -- the layer of the faults first, then that of the module
  change (StateT.run (ExceptT.run s >>= ExceptT.bindCont f) m : Except LoadFault β × ModuleTree) = _
  rw [StateT.run_bind]
  change (StateT.run (ExceptT.bindCont f (s.on m).1) (s.on m).2 : Id _) = _
  cases s.on m with
  | mk answer m' => cases answer <;> rfl

theorem on_get : (get : Steps ModuleTree).on m = (.ok m, m) := rfl

theorem on_throw (fault : LoadFault) : (throw fault : Steps α).on m = (.error fault, m) := rfl

theorem on_ofExcept (x : Except LoadFault α) : (ofExcept x : Steps α).on m = (x, m) := by
  cases x <;> rfl

/-- The dependencies are loaded without a change to the module. -/
theorem on_loadDependencies (files : FileTree) (resolve : Resolver) (fuel : Nat)
    (specifiers : List String) :
    (loadDependencies files resolve fuel specifiers).on m =
      (specifiers.mapM (ModuleTree.loadImport files resolve m) >>=
        List.mapM (ModuleTree.transpileWithin files resolve fuel), m) := by
  rw [loadDependencies, on_bind, on_get]
  dsimp only
  rw [on_bind, on_ofExcept]
  cases specifiers.mapM (ModuleTree.loadImport files resolve m) with
  | error fault => rfl
  | ok loaded => exact on_ofExcept m _

end

/-! ### What a call leaves -/

def result (call : ModuleCall) (m : ModuleTree) : Except LoadFault ModuleTree :=
  match call with
  | .transpile files resolve => m.transpile files resolve
  | .buildDependencies files resolve => m.buildDependencies files resolve

/-- A call that fails leaves the module as it is. -/
theorem apply_eq (call : ModuleCall) (m : ModuleTree) :
    call.apply m = match call.result m with
      | .ok m' => (.ok (), m')
      | .error fault => (.error fault, m) := by
  cases call with
  | transpile files resolve =>
    rw [apply, steps, on_bind, on_get, result, ModuleTree.transpile, ModuleTree.trailBound,
      ModuleTree.transpileWithin]
    dsimp only
    cases parseNamed m.source m.path.text with
    | error failure => exact on_throw m _
    | ok p =>
      dsimp only
      rw [on_bind, on_loadDependencies]
      cases p.importSpecifiers.mapM (ModuleTree.loadImport files resolve m) with
      | error fault => rfl
      | ok loaded =>
        simp only [ok_bind]
        cases loaded.mapM (ModuleTree.transpileWithin files resolve files.fileCount) <;> rfl
  | buildDependencies files resolve =>
    rw [apply, steps, on_bind, on_get, result, ModuleTree.buildDependencies]
    dsimp only
    rw [on_bind, on_ofExcept]
    cases scanImports m.path m.source with
    | error fault => rfl
    | ok specifiers =>
      dsimp only
      rw [on_bind, on_loadDependencies]
      simp only [ok_bind]
      cases specifiers.mapM (ModuleTree.loadImport files resolve m) with
      | error fault => rfl
      | ok loaded =>
        simp only [ok_bind]
        cases loaded.mapM (ModuleTree.transpileWithin files resolve _) <;> rfl

end ModuleCall

/-! ### Modules that are built -/

namespace ModuleTree

/-- The code of a module, if it has any, is that of its own source under its own options. -/
def HasOwnCode (m : ModuleTree) : Prop :=
  ∀ code, m.code = some code → TypeStrip.transpile m.source m.path.text m.options = .ok code

def IsTranspiled (m : ModuleTree) : Prop :=
  ∃ code, m.code = some code ∧ TypeStrip.transpile m.source m.path.text m.options = .ok code

/-- A module is what an import of another one stands for, read from disk. It has the options of the
module that imports it. -/
structure IsImport (files : FileTree) (resolve : Resolver) (m : ModuleTree) (specifier : String)
    (d : ModuleTree) : Prop where
  path : files.imported resolve m.path specifier = .ok d.path
  source : files.readModule d.path = .ok d.source
  options : d.options = m.options

/-- A module has one dependency for each import in its own source, in order. -/
def HoldsImports (files : FileTree) (resolve : Resolver) (m : ModuleTree) : Prop :=
  ∃ specifiers, scanImports m.path m.source = .ok specifiers ∧
    List.Forall₂ (m.IsImport files resolve) specifiers m.dependencies

/-- A module holds its imports, and everything below it is transpiled and holds its own. -/
structure IsBuilt (files : FileTree) (resolve : Resolver) (m : ModuleTree) : Prop where
  here : m.HoldsImports files resolve
  below : ∀ i address d, m.at? (i :: address) = some d →
    d.IsTranspiled ∧ d.HoldsImports files resolve

variable {files : FileTree} {resolve : Resolver} {options : CompilerOptions} {fuel : Nat}
  {path : ModulePath} {m t : ModuleTree} {specifiers : List String}

theorem IsTranspiled.hasOwnCode (h : m.IsTranspiled) : m.HasOwnCode := by
  obtain ⟨code, hcode, htranspile⟩ := h
  intro code' hcode'
  cases hcode.symm.trans hcode'
  exact htranspile

theorem isTranspiled_of_parse {p : Program} (hparse : parseNamed m.source m.path.text = .ok p)
    (hcode : m.code = some (p.emit m.options)) : m.IsTranspiled := by
  refine ⟨_, hcode, ?_⟩
  rw [TypeStrip.transpile, hparse]
  rfl

theorem isTranspiled_of_build (h : build files resolve options fuel path = .ok t) :
    t.IsTranspiled := by
  cases fuel with
  | zero => exact absurd h build_zero_ne_ok
  | succ fuel =>
    obtain ⟨source, program, node, ts, -, hparse, -, -, rfl⟩ := build_succ_eq_ok_iff.1 h
    exact isTranspiled_of_parse hparse rfl

theorem isImport_of_build {specifier : String}
    (hpath : files.imported resolve m.path specifier = .ok path)
    (h : build files resolve m.options fuel path = .ok t) :
    m.IsImport files resolve specifier t := by
  cases fuel with
  | zero => exact absurd h build_zero_ne_ok
  | succ fuel =>
    obtain ⟨source, program, node, ts, hsource, -, -, -, rfl⟩ := build_succ_eq_ok_iff.1 h
    exact ⟨hpath, hsource, rfl⟩

theorem holdsImports_of_builds {dependencies : List ModulePath}
    (hscan : scanImports m.path m.source = .ok specifiers)
    (hfound : List.Forall₂ (fun s d => files.imported resolve m.path s = .ok d) specifiers
      dependencies)
    (hbuilt : List.Forall₂ (fun d t => build files resolve m.options fuel d = .ok t) dependencies
      m.dependencies) :
    m.HoldsImports files resolve := by
  refine ⟨specifiers, hscan, (forall₂_bind_iff.2 ⟨dependencies, hfound, hbuilt⟩).imp ?_⟩
  intro specifier t h
  obtain ⟨path, hpath, ht⟩ := bind_eq_ok_iff.1 h
  exact isImport_of_build hpath ht

theorem holdsImports_of_build (h : build files resolve options fuel path = .ok t) :
    t.HoldsImports files resolve := by
  cases fuel with
  | zero => exact absurd h build_zero_ne_ok
  | succ fuel =>
    obtain ⟨source, program, node, ts, hsource, hparse, hnode, hbuilt, rfl⟩ :=
      build_succ_eq_ok_iff.1 h
    rw [FileTree.importNode_of_parse hsource hparse] at hnode
    obtain ⟨dependencies, hfound, h⟩ := bind_eq_ok_iff.1 hnode
    cases h
    refine holdsImports_of_builds ?_ (mapM_eq_ok_iff.1 hfound) hbuilt
    rw [scanImports, hparse]

/-- The dependencies of a module can be loaded and transpiled only to one for each import, of the
module and of everything below it. -/
theorem isBuilt_of_loaded {loaded : List ModuleTree}
    (hscan : scanImports m.path m.source = .ok specifiers)
    (hloaded : specifiers.mapM (loadImport files resolve m) = .ok loaded)
    (hts : loaded.mapM (transpileWithin files resolve fuel) = .ok m.dependencies) :
    m.IsBuilt files resolve := by
  -- what an import loads does not depend on the code and the dependencies of its module
  have hloaded' : specifiers.mapM (loadImport files resolve ⟨m.path, m.source, m.options, none, []⟩)
      = .ok loaded := hloaded
  obtain ⟨dependencies, hfound, hbuilt⟩ := exists_loaded_iff.1 ⟨loaded, hloaded', hts⟩
  refine ⟨holdsImports_of_builds hscan (mapM_eq_ok_iff.1 hfound) hbuilt, fun i address d hd => ?_⟩
  obtain ⟨t, ht, hd⟩ := Option.bind_eq_some_iff.1 hd
  obtain ⟨hi, rfl⟩ := List.getElem?_eq_some_iff.1 ht
  obtain ⟨-, fuel', hbuild⟩ :=
    exists_build_of_at? (hbuilt.get (hbuilt.length_eq ▸ hi) hi) hd
  exact ⟨isTranspiled_of_build hbuild, holdsImports_of_build hbuild⟩

end ModuleTree

/-! ### One call -/

namespace ModuleCall

variable {call : ModuleCall} {m m' : ModuleTree}

/-- What a call that succeeds makes of a module: one that is built, and that is transpiled too if
the call is for that. -/
structure Makes (call : ModuleCall) (m m' : ModuleTree) : Prop where
  path : m'.path = m.path
  source : m'.source = m.source
  options : m'.options = m.options
  built : m'.IsBuilt call.files call.resolve
  code : match call with
    | .transpile _ _ => m'.IsTranspiled
    | .buildDependencies _ _ => m'.code = m.code

theorem makes_of_result (h : call.result m = .ok m') : call.Makes m m' := by
  cases call with
  | transpile files resolve =>
    rw [result, ModuleTree.transpile, ModuleTree.trailBound, ModuleTree.transpileWithin] at h
    cases hparse : parseNamed m.source m.path.text with
    | error failure =>
      rw [hparse] at h
      cases h
    | ok p =>
      rw [hparse] at h
      obtain ⟨loaded, hloaded, h⟩ := bind_eq_ok_iff.1 h
      obtain ⟨dependencies, hdependencies, h⟩ := bind_eq_ok_iff.1 h
      cases h
      have hscan : scanImports m.path m.source = .ok p.importSpecifiers := by
        rw [scanImports, hparse]
      exact ⟨rfl, rfl, rfl, ModuleTree.isBuilt_of_loaded hscan hloaded hdependencies,
        ModuleTree.isTranspiled_of_parse hparse rfl⟩
  | buildDependencies files resolve =>
    obtain ⟨specifiers, hscan, h⟩ := bind_eq_ok_iff.1 h
    obtain ⟨loaded, hloaded, h⟩ := bind_eq_ok_iff.1 h
    obtain ⟨dependencies, hdependencies, h⟩ := bind_eq_ok_iff.1 h
    cases h
    exact ⟨rfl, rfl, rfl, ModuleTree.isBuilt_of_loaded hscan hloaded hdependencies, rfl⟩

theorem Makes.hasOwnCode (h : call.Makes m m') (hm : m.HasOwnCode) : m'.HasOwnCode := by
  cases call with
  | transpile files resolve => exact h.code.hasOwnCode
  | buildDependencies files resolve =>
    intro code hcode
    rw [h.path, h.source, h.options]
    exact hm code (h.code ▸ hcode)

/-- A call that fails leaves the module exactly as it is, and one that succeeds builds it. -/
theorem apply_spec (call : ModuleCall) (m : ModuleTree) :
    match call.apply m with
    | (.error _, m') => m' = m
    | (.ok (), m') => call.Makes m m' := by
  rw [apply_eq]
  cases h : call.result m with
  | error fault => rfl
  | ok m' => exact makes_of_result h

end ModuleCall

/-! ### Many calls -/

namespace ModuleTree

variable {calls : List ModuleCall} {call : ModuleCall} {start m m' : ModuleTree}

/-- What holds of a module over calls: its path, source and options stay, its code is its own, and
its dependencies are those of the beginning or what one of the calls has built. -/
structure IsKept (start : ModuleTree) (calls : List ModuleCall) (m : ModuleTree) : Prop where
  path : m.path = start.path
  source : m.source = start.source
  options : m.options = start.options
  code : m.HasOwnCode
  dependencies : m.dependencies = start.dependencies ∨
    ∃ call ∈ calls, m.IsBuilt call.files call.resolve

theorem after_append_singleton (m : ModuleTree) (calls : List ModuleCall) (call : ModuleCall) :
    m.after (calls ++ [call]) = (call.apply (m.after calls)).2 := by
  rw [after, List.foldl_append]
  rfl

theorem IsKept.append (h : start.IsKept calls m) (call : ModuleCall) :
    start.IsKept (calls ++ [call]) m where
  path := h.path
  source := h.source
  options := h.options
  code := h.code
  dependencies := h.dependencies.imp_right fun ⟨earlier, hearlier, hbuilt⟩ =>
    ⟨earlier, List.mem_append_left _ hearlier, hbuilt⟩

theorem IsKept.makes (h : start.IsKept calls m) (hmakes : call.Makes m m') :
    start.IsKept (calls ++ [call]) m' where
  path := hmakes.path.trans h.path
  source := hmakes.source.trans h.source
  options := hmakes.options.trans h.options
  code := hmakes.hasOwnCode h.code
  dependencies := .inr ⟨call, List.mem_append_right _ List.mem_cons_self, hmakes.built⟩

/-- One call keeps what holds. -/
theorem IsKept.apply (h : start.IsKept calls m) (call : ModuleCall) :
    start.IsKept (calls ++ [call]) (call.apply m).2 := by
  have hcall := call.apply_spec m
  split at hcall
  · next heq =>
    rw [heq, hcall]
    exact h.append call
  · next heq =>
    rw [heq]
    exact h.makes hcall

/-- A whole run of calls does. -/
theorem isKept_after (hstart : start.HasOwnCode) (calls : List ModuleCall) :
    start.IsKept calls (start.after calls) := by
  induction calls using List.reverseRecOn with
  | nil => exact ⟨rfl, rfl, rfl, hstart, .inl rfl⟩
  | append_singleton calls call ih =>
    rw [after_append_singleton]
    exact ih.apply call

/-- Over all calls on a new module, each with its own files and resolver: a call that fails leaves
the module exactly as it is. One that succeeds leaves one dependency for each import, in order, in
the module and everywhere below, where all modules are transpiled. The code of the module is its own
at all times. -/
theorem after_calls (path : ModulePath) (source : String) (options : CompilerOptions)
    (calls : List ModuleCall) (call : ModuleCall) :
    let start : ModuleTree := ⟨path, source, options, none, []⟩
    let m := start.after calls
    start.IsKept calls m ∧
      match call.apply m with
      | (.error _, m') => m' = m
      | (.ok (), m') => call.Makes m m' ∧ start.IsKept (calls ++ [call]) m' := by
  intro start m
  have hstart : start.HasOwnCode := by
    intro code hcode
    cases hcode
  have hm : start.IsKept calls m := isKept_after hstart calls
  refine ⟨hm, ?_⟩
  have hcall := call.apply_spec m
  split at hcall
  · exact hcall
  · exact ⟨hcall, hm.makes hcall⟩

end ModuleTree

end TypeStrip
