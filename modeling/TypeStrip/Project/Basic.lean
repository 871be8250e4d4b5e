import TypeStrip.Project.Cycle
import TypeStrip.Project.Discovery
import TypeStrip.Project.ModuleTree

/-! Projects: a directory with a configuration, and a way to resolve imports. -/
namespace TypeStrip

structure Project where
  root : ModulePath
  resolve : Resolver
  config : Config := {}

/-- The configuration of the project in a directory. Without a configuration file everything has
its default. -/
def Config.load (files : FileTree) (root : WrittenPath) : Except LoadFault Config :=
  let path := root.join Config.fileName
  if files.isFile path then
    match files.read path with
    | .ok content =>
      match Config.ofText content with
      | .ok config => .ok config
      | .error fault => .error (.badConfig path fault)
    | .error fault => .error (.unreadable path fault)
  else .ok {}

namespace Project

/-- The project in a directory. Its packages are looked up no higher than there. -/
def load (files : FileTree) (root : ModulePath) : Except LoadFault Project := do
  return { root, resolve := .onDisk root.written, config := ← Config.load files root.written }

def entryFile (files : FileTree) (project : Project) (entry : String) :
    Except LoadFault ModulePath :=
  files.moduleFile (project.root.join entry)

def discover (files : FileTree) (project : Project) (path : ModulePath) :
    Except LoadFault ImportGraph :=
  ImportGraph.discover files project.resolve path

def graph (files : FileTree) (project : Project) (entry : String) :
    Except LoadFault ImportGraph := do
  project.discover files (← project.entryFile files entry)

def checkAcyclic (g : ImportGraph) : Except LoadFault Unit :=
  match g.cycle? with
  | some cycle => .error (.cyclic cycle)
  | none => .ok ()

def prepare (files : FileTree) (project : Project) (entry : String) :
    Except LoadFault ModuleTree := do
  let path ← project.entryFile files entry
  if project.config.detectCycles then
    checkAcyclic (← project.discover files path)
  let m ← ModuleTree.load files path project.config.options
  m.transpile files project.resolve

end Project

end TypeStrip
