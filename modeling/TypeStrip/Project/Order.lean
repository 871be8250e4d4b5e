import TypeStrip.Project.Cycle

/-!
The order in which modules can be loaded: dependencies first. Modules wait until all of their
dependencies are placed, and are placed in the order in which they stop waiting.
-/
namespace TypeStrip.ImportGraph

def knownDependencies (g : ImportGraph) (path : ModulePath) : List ModulePath :=
  (g.dependencies path).eraseDups.filter g.contains

def dependents (g : ImportGraph) (path : ModulePath) : List ModulePath :=
  g.paths.filter fun dependent => (g.knownDependencies dependent).contains path

/-- How far the modules are ordered: how many dependencies each of them waits for, which modules
are ready, and which are placed. -/
structure Schedule where
  waiting : List (ModulePath × Int)
  ready : List ModulePath
  placed : List ModulePath

def initialSchedule (g : ImportGraph) : Schedule where
  waiting := g.paths.map fun path => (path, ((g.knownDependencies path).length : Int))
  ready := g.paths.filter fun path => (g.knownDependencies path).isEmpty
  placed := []

def Schedule.release (s : Schedule) (path : ModulePath) : Schedule :=
  let waiting := s.waiting.map fun (p, n) => if p = path then (p, n - 1) else (p, n)
  if waiting.lookup path = some 0 then { s with waiting, ready := s.ready ++ [path] }
  else { s with waiting }

def place (g : ImportGraph) (s : Schedule) : Schedule :=
  match s.ready with
  | [] => s
  | path :: ready =>
    (g.dependents path).foldl Schedule.release { s with ready, placed := s.placed ++ [path] }

def schedule (g : ImportGraph) : Nat → Schedule
  | 0 => g.initialSchedule
  | n + 1 => g.place (g.schedule n)

/-- The modules, dependencies first, or a cycle of imports. No module is placed twice, so as many
steps as there are modules are enough. -/
def loadOrder (g : ImportGraph) : Except (List ModulePath) (List ModulePath) :=
  match g.cycle? with
  | some cycle => .error cycle
  | none => .ok (g.schedule g.nodes.length).placed

end TypeStrip.ImportGraph
