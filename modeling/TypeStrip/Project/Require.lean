import TypeStrip.Project.ModuleTree

/-! What a module that runs is given for the modules that its code requires. -/
namespace TypeStrip

inductive RequireFault where
  | unresolved (specifier : String) (importer : ModulePath)
  | unnamed (fault : LoadFault)
  | missing (specifier : String) (importer : ModulePath)

def RequireFault.message : RequireFault → String
  | .unresolved specifier _ => "No path found for module " ++ specifier
  | .unnamed fault => fault.message
  | .missing specifier importer =>
    "No dependency found for " ++ specifier ++ " imported by " ++ importer.text

/-- The module that is given for a specifier: the first of the dependencies that has the path of the
file that the specifier stands for. -/
def ModuleTree.required (files : FileTree) (resolve : Resolver) (m : ModuleTree)
    (specifier : String) : Except RequireFault ModuleTree :=
  match resolve files m.path specifier with
  | none => .error (.unresolved specifier m.path)
  | some path =>
    match files.moduleFile path with
    | .error fault => .error (.unnamed fault)
    | .ok file =>
      match m.dependencies.find? fun d => d.path == file with
      | some d => .ok d
      | none => .error (.missing specifier m.path)

end TypeStrip
