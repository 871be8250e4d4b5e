import TypeStrip.Project.Graph

/-!
Cycles of imports. They are looked for depth first, from each module that was not reached before,
in order.
-/
namespace TypeStrip.ImportGraph

abbrev Search := Except (List ModulePath) (List ModulePath)

/-- The part of a trail from a path on, closed by the path itself. -/
def closing (trail : List ModulePath) (path : ModulePath) : List ModulePath :=
  trail.dropWhile (· != path) ++ [path]

/-- The search from a module at the end of a trail of imports. Fuel above the number of modules
that have a node and are not on the trail is enough. -/
def searchFrom (g : ImportGraph) : Nat → List ModulePath → List ModulePath → ModulePath → Search
  | 0, _, visited, _ => .ok visited
  | fuel + 1, trail, visited, path =>
    let trail := trail ++ [path]
    (g.dependencies path).foldlM
      (fun visited dependency =>
        if trail.contains dependency then .error (closing trail dependency)
        else if visited.contains dependency then .ok visited
        else g.searchFrom fuel trail visited dependency)
      (path :: visited)

def search (g : ImportGraph) : Search :=
  g.paths.foldlM
    (fun visited path =>
      if visited.contains path then .ok visited
      else g.searchFrom (g.nodes.length + 1) [] visited path)
    []

/-- The first cycle: a trail of imports from a module back to itself. -/
def cycle? (g : ImportGraph) : Option (List ModulePath) :=
  match g.search with
  | .error cycle => some cycle
  | .ok _ => none

end TypeStrip.ImportGraph
