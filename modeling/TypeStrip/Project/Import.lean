import TypeStrip.Project.Fault
import TypeStrip.Project.Resolver
import TypeStrip.Syntax.Site

/-! From the imports of a module to the files they stand for. -/
namespace TypeStrip

/-- The specifiers of all imports in a module, at any depth, in the order of the source. -/
def Program.importSpecifiers (p : Program) : List String :=
  p.sites.filterMap fun
    | .import_ d => some d.source
    | _ => none

def scanImports (path : ModulePath) (source : String) : Except LoadFault (List String) :=
  match parseNamed source path.text with
  | .ok p => .ok p.importSpecifiers
  | .error failure => .error (.unparsable failure)

namespace FileTree

def readModule (files : FileTree) (path : ModulePath) : Except LoadFault String :=
  match files.read path.written with
  | .ok source => .ok source
  | .error fault => .error (.unreadable path.written fault)

def namedFile (files : FileTree) (path : ModulePath) : Except LoadFault ModulePath :=
  if files.isFile path.written then .ok path
  else match path.candidates.find? fun c => files.isFile c.written with
    | some file => .ok file
    | none => .error (.noFile path)

/-- The file that a path stands for. One with a recognized extension stands for itself, whether it
exists or not. -/
def moduleFile (files : FileTree) (path : ModulePath) : Except LoadFault ModulePath :=
  if path.isRecognized then .ok path else files.namedFile path

def imported (files : FileTree) (resolve : Resolver) (importer : ModulePath)
    (specifier : String) : Except LoadFault ModulePath :=
  match resolve files importer specifier with
  | some path => files.moduleFile path
  | none => .error (.unresolved specifier importer)

end FileTree

end TypeStrip
