import TypeStrip.Project.ModuleTree

/-!
Calls on a module that is kept from one call to the next. A call changes the module step by step and
ends at the first step that fails; what was changed before stays changed.
-/
namespace TypeStrip

/-- A call on a module, with the files of its time and a way to resolve imports: to transpile it, or
only to build what it depends on. -/
inductive ModuleCall where
  | transpile (files : FileTree) (resolve : Resolver)
  | buildDependencies (files : FileTree) (resolve : Resolver)

namespace ModuleCall

def files : ModuleCall → FileTree
  | .transpile files _ | .buildDependencies files _ => files

def resolve : ModuleCall → Resolver
  | .transpile _ resolve | .buildDependencies _ resolve => resolve

abbrev Steps := ExceptT LoadFault (StateM ModuleTree)

def Steps.on {α : Type} (s : Steps α) (m : ModuleTree) : Except LoadFault α × ModuleTree :=
  StateT.run (ExceptT.run s) m

def loadDependencies (files : FileTree) (resolve : Resolver) (fuel : Nat)
    (specifiers : List String) : Steps (List ModuleTree) := do
  let loaded ← ofExcept (specifiers.mapM (ModuleTree.loadImport files resolve (← get)))
  ofExcept (loaded.mapM (ModuleTree.transpileWithin files resolve fuel))

/-- The steps of a call. The module is not changed before everything below it is transpiled. -/
def steps : ModuleCall → Steps Unit
  | .transpile files resolve => do
    let m ← get
    match parseNamed m.source m.path.text with
    | .error failure => throw (.unparsable failure)
    | .ok p =>
      let code := p.emit m.options
      let dependencies ← loadDependencies files resolve files.fileCount p.importSpecifiers
      modify fun m => { m with code := some code }
      modify fun m => { m with dependencies }
  | .buildDependencies files resolve => do
    let m ← get
    let specifiers ← ofExcept (scanImports m.path m.source)
    let dependencies ←
      loadDependencies files resolve (ModuleTree.trailBound files) specifiers
    modify fun m => { m with dependencies }

def apply (call : ModuleCall) (m : ModuleTree) : Except LoadFault Unit × ModuleTree :=
  call.steps.on m

end ModuleCall

def ModuleTree.after (m : ModuleTree) (calls : List ModuleCall) : ModuleTree :=
  calls.foldl (fun m call => (call.apply m).2) m

end TypeStrip
