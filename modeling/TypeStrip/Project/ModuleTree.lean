import TypeStrip.Project.Import

/-!
Modules with everything that they import. A module that is imported twice occurs twice, so a tree
has an end only if there is no cycle of imports.
-/
namespace TypeStrip

/-- A module: its source, its code once it is transpiled, and the modules that it imports, one for
each import. -/
structure ModuleTree where
  path : ModulePath
  source : String
  options : CompilerOptions
  code : Option String := none
  dependencies : List ModuleTree := []

namespace ModuleTree

mutual

/-- The number of modules, counted as often as they occur. -/
def size (m : ModuleTree) : Nat :=
  match m with
  | ⟨_, _, _, _, dependencies⟩ => 1 + sizeAll dependencies

def sizeAll : List ModuleTree → Nat
  | [] => 0
  | m :: ms => m.size + sizeAll ms

end

def load (files : FileTree) (path : ModulePath) (options : CompilerOptions) :
    Except LoadFault ModuleTree := do
  return { path, source := ← files.readModule path, options }

def loadImport (files : FileTree) (resolve : Resolver) (m : ModuleTree) (specifier : String) :
    Except LoadFault ModuleTree := do
  load files (← files.imported resolve m.path specifier) m.options

/-- The module with its code, and with all modules below transpiled. All imports of a module are
loaded before the first of them is transpiled. -/
def transpileWithin (files : FileTree) (resolve : Resolver) : Nat → ModuleTree →
    Except LoadFault ModuleTree
  | 0, m => .error (.endless m.path)
  | fuel + 1, m =>
    match parseNamed m.source m.path.text with
    | .error failure => .error (.unparsable failure)
    | .ok p => do
      let loaded ← p.importSpecifiers.mapM (loadImport files resolve m)
      let dependencies ← loaded.mapM (transpileWithin files resolve fuel)
      return { m with code := some (p.emit m.options), dependencies }

/-- The greatest number of modules on a trail of imports without a cycle: a module, and others that
are all on disk. -/
def trailBound (files : FileTree) : Nat := files.fileCount + 1

def transpile (files : FileTree) (resolve : Resolver) (m : ModuleTree) :
    Except LoadFault ModuleTree :=
  m.transpileWithin files resolve (trailBound files)

def buildDependencies (files : FileTree) (resolve : Resolver) (m : ModuleTree) :
    Except LoadFault ModuleTree := do
  let specifiers ← scanImports m.path m.source
  let loaded ← specifiers.mapM (loadImport files resolve m)
  let dependencies ← loaded.mapM (transpileWithin files resolve (trailBound files))
  return { m with dependencies }

/-- What becomes of a module by a step that may fail: a step that does leaves it as it is. -/
def attempt (step : ModuleTree → Except LoadFault ModuleTree) (m : ModuleTree) :
    Option LoadFault × ModuleTree :=
  match step m with
  | .ok m => (none, m)
  | .error fault => (some fault, m)

def runnable (m : ModuleTree) : Except LoadFault String :=
  match m.code with
  | some code => .ok code
  | none => .error (.notTranspiled m.path)

end ModuleTree

end TypeStrip
