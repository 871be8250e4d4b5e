import TypeStrip.Path.Normal

/-! Which modules import which: every module once, in the order in which they were found. -/
namespace TypeStrip

/-- A module with its imports: as they are written, and the files they stand for. -/
structure ImportNode where
  path : ModulePath
  specifiers : List String
  dependencies : List ModulePath
deriving DecidableEq, Repr

/-- The imports of a project. No two nodes have the same path. -/
structure ImportGraph where
  nodes : List ImportNode := []
  entry : Option ModulePath := none
  distinct : (nodes.map ImportNode.path).Nodup := by simp

namespace ImportGraph

def paths (g : ImportGraph) : List ModulePath := g.nodes.map ImportNode.path

def find? (g : ImportGraph) (path : ModulePath) : Option ImportNode :=
  g.nodes.find? fun node => node.path == path

def contains (g : ImportGraph) (path : ModulePath) : Bool := g.paths.contains path

/-- The files that a module imports. A module without a node imports none. -/
def dependencies (g : ImportGraph) (path : ModulePath) : List ModulePath :=
  ((g.find? path).map ImportNode.dependencies).getD []

def setEntry (g : ImportGraph) (path : ModulePath) : ImportGraph := { g with entry := some path }

/-- A node, or another one in its place if that is for the same module. -/
def renewed (node old : ImportNode) : ImportNode := if old.path = node.path then node else old

theorem path_renewed (node old : ImportNode) : (renewed node old).path = old.path := by
  unfold renewed
  split
  · next h => exact h.symm
  · rfl

theorem map_path_renewed (node : ImportNode) (nodes : List ImportNode) :
    (nodes.map (renewed node)).map ImportNode.path = nodes.map ImportNode.path := by
  simp [path_renewed]

/-- The graph with a node: in place of one for the same module, or else at the end. -/
def add (g : ImportGraph) (node : ImportNode) : ImportGraph :=
  if h : g.contains node.path then
    { g with
      nodes := g.nodes.map (renewed node)
      distinct := (map_path_renewed node g.nodes).symm ▸ g.distinct }
  else
    { g with
      nodes := g.nodes ++ [node]
      distinct := by
        simp only [contains, paths, List.contains_iff_mem] at h
        rw [List.map_append, List.nodup_append]
        refine ⟨g.distinct, by simp, fun a ha b hb hab => ?_⟩
        simp only [List.map_cons, List.map_nil, List.mem_singleton] at hb
        exact h (hb ▸ hab ▸ ha) }

end ImportGraph

end TypeStrip
