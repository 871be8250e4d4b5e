import TypeStrip.Project.Graph
import TypeStrip.Project.Import

/-! The modules that can be reached from an entry, breadth first. Every file is read once. -/
namespace TypeStrip

/-- How far the modules are found: those that are read, all that are known, and those still to be
read. -/
structure Discovery where
  graph : ImportGraph
  known : List ModulePath
  queue : List ModulePath

def Discovery.meet (d : Discovery) (path : ModulePath) : Discovery :=
  if d.known.contains path then d
  else { d with known := path :: d.known, queue := d.queue ++ [path] }

def FileTree.importNode (files : FileTree) (resolve : Resolver) (path : ModulePath) :
    Except LoadFault ImportNode := do
  let source ← files.readModule path
  let specifiers ← scanImports path source
  let dependencies ← specifiers.mapM (files.imported resolve path)
  return ⟨path, specifiers, dependencies⟩

def Discovery.run (files : FileTree) (resolve : Resolver) : Nat → Discovery →
    Except LoadFault Discovery
  | 0, d => .ok d
  | fuel + 1, d =>
    match d.queue with
    | [] => .ok d
    | path :: queue => do
      let node ← files.importNode resolve path
      let d := { d with graph := d.graph.add node, queue }
      Discovery.run files resolve fuel (node.dependencies.foldl Discovery.meet d)

/-- The imports of everything that an entry leads to. Reading succeeds at most once for each file,
which bounds the search. -/
def ImportGraph.discover (files : FileTree) (resolve : Resolver) (entry : ModulePath) :
    Except LoadFault ImportGraph :=
  let start : Discovery := ⟨ImportGraph.setEntry {} entry, [entry], [entry]⟩
  (Discovery.run files resolve (files.fileCount + 1) start).map Discovery.graph

end TypeStrip
