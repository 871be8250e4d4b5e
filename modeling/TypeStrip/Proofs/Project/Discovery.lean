import TypeStrip.Proofs.Project.Cycles
import TypeStrip.Proofs.Project.Imports

/-! Discovery finds the modules that an entry leads to, nearest first, and reads each of them once. -/
namespace TypeStrip

variable {files : FileTree} {resolve : Resolver} {entry p : ModulePath} {n : Nat}

namespace ImportGraph

/-- A graph of all that an entry leads to, nearest first. -/
structure IsClosure (files : FileTree) (resolve : Resolver) (entry : ModulePath)
    (g : ImportGraph) : Prop where
  reached : ∀ p, p ∈ g.paths ↔ files.Reaches resolve entry p
  distinct : g.paths.Nodup
  first : g.paths.head? = some entry
  nearest : g.paths.Pairwise fun a b =>
    files.distance resolve entry a ≤ files.distance resolve entry b
  nodes : ∀ node ∈ g.nodes, files.IsNodeOf resolve node

theorem nodes_add_of_not_mem {g : ImportGraph} {node : ImportNode} (h : node.path ∉ g.paths) :
    (g.add node).nodes = g.nodes ++ [node] := by
  rw [add, dif_neg]
  rwa [contains, List.contains_iff_mem]

variable {g : ImportGraph}

theorem IsClosure.exists_node (h : g.IsClosure files resolve entry)
    (hp : files.Reaches resolve entry p) :
    ∃ node, g.find? p = some node ∧ files.importNode resolve p = .ok node := by
  have hfound : (g.find? p).isSome := by
    rw [find?_isSome, contains, List.contains_iff_mem]
    exact (h.reached p).2 hp
  obtain ⟨node, hnode⟩ := Option.isSome_iff_exists.1 hfound
  exact ⟨node, hnode, FileTree.importNode_eq_ok_iff.2
    ⟨path_of_find? hnode, h.nodes node (List.mem_of_find?_eq_some hnode)⟩⟩

theorem IsClosure.imports_iff (h : g.IsClosure files resolve entry) {a b : ModulePath}
    (ha : files.Reaches resolve entry a) : g.Imports a b ↔ files.Imports resolve a b := by
  obtain ⟨node, hfind, himport⟩ := h.exists_node ha
  obtain ⟨rfl, hnode⟩ := FileTree.importNode_eq_ok_iff.1 himport
  rw [Imports, dependencies, hfind, hnode.imports_iff]
  rfl

/-- The search for cycles in a graph of all that an entry leads to finds none exactly if nothing
there leads back to itself. -/
theorem IsClosure.cycle?_eq_none_iff (h : g.IsClosure files resolve entry) :
    g.cycle? = none ↔ files.IsAcyclicFrom resolve entry := by
  constructor
  · intro hnone p hp hcycle
    refine (settled_of_cycle? hnone p).not_transGen ?_
    have hback : ∀ q, Relation.TransGen (files.Imports resolve) p q →
        Relation.TransGen g.Imports p q := by
      intro q hq
      induction hq with
      | single himports => exact .single ((h.imports_iff hp).2 himports)
      | tail hq himports ih =>
        exact ih.tail ((h.imports_iff (hp.trans hq.to_reflTransGen)).2 himports)
    exact hback p hcycle
  · intro hacyclic
    cases hc : g.cycle? with
    | none => rfl
    | some c =>
      obtain ⟨p, hp⟩ := (isCycle_of_cycle? hc).exists_transGen
      have hreached {a b : ModulePath} (hab : g.Imports a b) : files.Reaches resolve entry a :=
        (h.reached a).1 hab.mem_paths
      obtain ⟨q, hpq, -⟩ := Relation.TransGen.head'_iff.1 hp
      refine absurd ?_ (hacyclic p (hreached hpq))
      exact Relation.TransGen.mono (fun a b hab => (h.imports_iff (hreached hab)).1 hab) p p hp

end ImportGraph

namespace Discovery

def after (d : Discovery) (node : ImportNode) : Discovery :=
  node.dependencies.foldl meet { d with graph := d.graph.add node, queue := d.queue.tail }

/-- Discovery without a bound: which modules it reads, one after the other, and how it ends. -/
inductive Runs (files : FileTree) (resolve : Resolver) :
    Discovery → List ModulePath → Except LoadFault ImportGraph → Prop where
  | done {d : Discovery} : d.queue = [] → Runs files resolve d [] (.ok d.graph)
  | fails {d : Discovery} {path : ModulePath} {fault : LoadFault} : d.queue.head? = some path →
      files.importNode resolve path = .error fault → Runs files resolve d [path] (.error fault)
  | reads {d : Discovery} {path : ModulePath} {node : ImportNode} {paths : List ModulePath}
      {outcome : Except LoadFault ImportGraph} : d.queue.head? = some path →
      files.importNode resolve path = .ok node → Runs files resolve (d.after node) paths outcome →
      Runs files resolve d (path :: paths) outcome

/-- There is one course that discovery can take. -/
theorem Runs.unique {d : Discovery} {reads reads' : List ModulePath}
    {outcome outcome' : Except LoadFault ImportGraph} (h : Runs files resolve d reads outcome)
    (h' : Runs files resolve d reads' outcome') : reads' = reads ∧ outcome' = outcome := by
  induction h generalizing reads' with
  | done hempty =>
    cases h' with
    | done => exact ⟨rfl, rfl⟩
    | fails hqueue => simp [hempty] at hqueue
    | reads hqueue => simp [hempty] at hqueue
  | fails hqueue hnode =>
    cases h' with
    | done hempty => simp [hempty] at hqueue
    | fails hqueue' hnode' =>
      cases hqueue.symm.trans hqueue'
      cases hnode.symm.trans hnode'
      exact ⟨rfl, rfl⟩
    | reads hqueue' hnode' =>
      cases hqueue.symm.trans hqueue'
      cases hnode.symm.trans hnode'
  | reads hqueue hnode _ ih =>
    cases h' with
    | done hempty => simp [hempty] at hqueue
    | fails hqueue' hnode' =>
      cases hqueue.symm.trans hqueue'
      cases hnode.symm.trans hnode'
    | reads hqueue' hnode' hrest =>
      cases hqueue.symm.trans hqueue'
      cases hnode.symm.trans hnode'
      exact (ih hrest).imp_left fun hreads => by rw [hreads]

/-- The discovery in which only the entry is known. -/
def start (entry : ModulePath) : Discovery :=
  ⟨ImportGraph.setEntry { nodes := [], distinct := List.nodup_nil } entry, [entry], [entry]⟩

def found (d : Discovery) : List ModulePath := d.graph.paths ++ d.queue

theorem run_of_nil {d : Discovery} {fuel : Nat} (h : d.queue = []) :
    run files resolve (fuel + 1) d = .ok d := by
  rw [run, h]

theorem run_of_head? {d : Discovery} {fuel : Nat} {path : ModulePath}
    (h : d.queue.head? = some path) :
    run files resolve (fuel + 1) d =
      files.importNode resolve path >>= fun node => run files resolve fuel (d.after node) := by
  obtain ⟨rest, hrest⟩ := List.head?_eq_some_iff.1 h
  simp only [run, after, hrest, List.tail_cons]

/-- New modules come to the end of the queue, each of them once. -/
theorem foldl_meet (d : Discovery) (dependencies : List ModulePath) :
    ∃ fresh, dependencies.foldl meet d =
        { d with known := fresh.reverse ++ d.known, queue := d.queue ++ fresh } ∧
      fresh.Nodup ∧ (∀ p ∈ fresh, p ∈ dependencies ∧ p ∉ d.known) ∧
      ∀ p ∈ dependencies, p ∈ d.known ∨ p ∈ fresh := by
  induction dependencies generalizing d with
  | nil => exact ⟨[], by simp, List.nodup_nil, by simp, by simp⟩
  | cons p dependencies ih =>
    obtain ⟨fresh, hfold, hnodup, hfresh, hall⟩ := ih (d.meet p)
    rw [List.foldl_cons, hfold]
    by_cases hp : p ∈ d.known
    · have hmeet : d.meet p = d := if_pos (List.contains_iff_mem.2 hp)
      rw [hmeet] at hfresh hall ⊢
      refine ⟨fresh, rfl, hnodup, fun q hq => ?_, List.forall_mem_cons.2 ⟨.inl hp, hall⟩⟩
      exact ⟨List.mem_cons_of_mem p (hfresh q hq).1, (hfresh q hq).2⟩
    · have hmeet : d.meet p = { d with known := p :: d.known, queue := d.queue ++ [p] } :=
        if_neg fun h => hp (List.contains_iff_mem.1 h)
      rw [hmeet] at hfresh hall ⊢
      have hnew : ∀ q ∈ fresh, q ≠ p ∧ q ∉ d.known := fun q hq =>
        not_or.1 fun h => (hfresh q hq).2 (List.mem_cons.2 h)
      refine ⟨p :: fresh, by simp, ?_, ?_, ?_⟩
      · exact List.nodup_cons.2 ⟨fun h => (hnew p h).1 rfl, hnodup⟩
      · refine List.forall_mem_cons.2 ⟨⟨List.mem_cons_self, hp⟩, fun q hq => ?_⟩
        exact ⟨List.mem_cons_of_mem p (hfresh q hq).1, (hnew q hq).2⟩
      · refine List.forall_mem_cons.2 ⟨.inr List.mem_cons_self, fun q hq => ?_⟩
        rcases hall q hq with h | h
        · rcases List.mem_cons.1 h with rfl | h
          · exact .inr List.mem_cons_self
          · exact .inl h
        · exact .inr (List.mem_cons_of_mem p h)

/-- What holds all the time. Whatever a module that was read imports is found, and nothing that is
found is more than one import farther away than the first module in the queue. -/
structure IsPartial (files : FileTree) (resolve : Resolver) (entry : ModulePath) (d : Discovery) :
    Prop where
  known : ∀ p, p ∈ d.known ↔ p ∈ d.found
  distinct : d.found.Nodup
  first : d.found.head? = some entry
  reached : ∀ p ∈ d.found, files.Reaches resolve entry p
  closed : ∀ a ∈ d.graph.paths, ∀ b, files.Imports resolve a b → b ∈ d.found
  nearest : d.found.Pairwise fun a b =>
    files.distance resolve entry a ≤ files.distance resolve entry b
  span : ∀ next ∈ d.queue.head?, ∀ p ∈ d.found,
    files.distance resolve entry p ≤ files.distance resolve entry next + 1
  nodes : ∀ node ∈ d.graph.nodes, files.IsNodeOf resolve node

theorem isPartial_start (entry : ModulePath) : IsPartial files resolve entry (start entry) where
  known _ := Iff.rfl
  distinct := List.nodup_singleton entry
  first := rfl
  reached _ hp := List.mem_singleton.1 hp ▸ .refl
  closed _ ha := absurd ha List.not_mem_nil
  nearest := List.pairwise_singleton _ entry
  span next hnext p hp := by
    cases hnext
    rw [List.mem_singleton.1 hp]
    exact Nat.le_succ _
  nodes _ hnode := absurd hnode List.not_mem_nil

variable {d : Discovery}

/-- When the queue is empty, all that the entry leads to is in the graph. -/
theorem IsPartial.isClosure (h : IsPartial files resolve entry d) (hqueue : d.queue = []) :
    d.graph.IsClosure files resolve entry := by
  have hfound : d.found = d.graph.paths := by rw [found, hqueue, List.append_nil]
  refine ⟨fun p => ⟨fun hp => h.reached p (hfound ▸ hp), fun hp => ?_⟩, d.graph.distinct,
    hfound ▸ h.first, hfound ▸ h.nearest, h.nodes⟩
  induction hp with
  | refl =>
    rw [← hfound]
    exact List.mem_of_head? h.first
  | tail _ himports ih =>
    rw [← hfound]
    exact h.closed _ ih _ himports

/-- The first module in the queue is the nearest there. -/
theorem IsPartial.distance_le (h : IsPartial files resolve entry d) {path : ModulePath}
    (hqueue : d.queue.head? = some path) (hp : p ∈ d.queue) :
    files.distance resolve entry path ≤ files.distance resolve entry p := by
  obtain ⟨rest, hrest⟩ := List.head?_eq_some_iff.1 hqueue
  have hsorted := (List.pairwise_append.1 h.nearest).2.1
  rw [hrest] at hsorted hp
  rcases List.mem_cons.1 hp with rfl | hp
  · exact Nat.le_refl _
  · exact (List.pairwise_cons.1 hsorted).1 p hp

theorem IsPartial.not_mem_paths (h : IsPartial files resolve entry d) {path : ModulePath}
    (hqueue : d.queue.head? = some path) : path ∉ d.graph.paths := fun hp =>
  (List.nodup_append.1 h.distinct).2.2 path hp path (List.mem_of_head? hqueue) rfl

/-- Modules nearer than the first one in the queue are read. -/
theorem IsPartial.mem_paths_of_lt (h : IsPartial files resolve entry d) {path : ModulePath}
    (hqueue : d.queue.head? = some path) (hn : files.LeadsIn resolve entry n p)
    (hlt : n < files.distance resolve entry path) : p ∈ d.graph.paths := by
  have hread {m : Nat} {q : ModulePath} (hq : q ∈ d.found) (hm : files.LeadsIn resolve entry m q)
      (hlt : m < files.distance resolve entry path) : q ∈ d.graph.paths := by
    refine (List.mem_append.1 hq).resolve_right fun hq => ?_
    exact absurd (h.distance_le hqueue hq) (Nat.not_le.2 (hm.distance_le.trans_lt hlt))
  induction hn with
  | here => exact hread (List.mem_of_head? h.first) .here hlt
  | next hn himports ih =>
    exact hread (h.closed _ (ih (by omega)) _ himports) (hn.next himports) hlt

/-- A module that is not found is farther away than the first one in the queue. -/
theorem IsPartial.distance_lt (h : IsPartial files resolve entry d) {path : ModulePath}
    (hqueue : d.queue.head? = some path) (hn : files.LeadsIn resolve entry n p)
    (hp : p ∉ d.found) : files.distance resolve entry path < n := by
  cases hn with
  | here => exact absurd (List.mem_of_head? h.first) hp
  | next hn himports =>
    by_contra hle
    exact hp (h.closed _ (h.mem_paths_of_lt hqueue hn (by omega)) p himports)

/-- What the first module in the queue imports and was not found before is one import farther
away. -/
theorem IsPartial.distance_eq (h : IsPartial files resolve entry d) {path : ModulePath}
    (hqueue : d.queue.head? = some path) (himports : files.Imports resolve path p)
    (hp : p ∉ d.found) :
    files.distance resolve entry p = files.distance resolve entry path + 1 := by
  have hreached : files.Reaches resolve entry path :=
    h.reached path (List.mem_append_right _ (List.mem_of_head? hqueue))
  refine Nat.le_antisymm (himports.distance_le hreached) ?_
  have hleads : files.Reaches resolve entry p := hreached.tail himports
  exact h.distance_lt hqueue hleads.leadsIn hp

/-- Reading the first module in the queue adds its node, and at the end what it imports and was not
found before. -/
theorem IsPartial.exists_fresh (h : IsPartial files resolve entry d) {node : ImportNode}
    (hqueue : d.queue.head? = some node.path) :
    ∃ fresh, (d.after node).graph.nodes = d.graph.nodes ++ [node] ∧
      (d.after node).queue = d.queue.tail ++ fresh ∧ (d.after node).found = d.found ++ fresh ∧
      (d.after node).known = fresh.reverse ++ d.known ∧ fresh.Nodup ∧
      (∀ p ∈ fresh, p ∈ node.dependencies ∧ p ∉ d.found) ∧
      ∀ p ∈ node.dependencies, p ∈ d.found ∨ p ∈ fresh := by
  obtain ⟨rest, hrest⟩ := List.head?_eq_some_iff.1 hqueue
  have hnodes := ImportGraph.nodes_add_of_not_mem (h.not_mem_paths hqueue)
  obtain ⟨fresh, hfold, hnodup, hfresh, hall⟩ := foldl_meet
    { d with graph := d.graph.add node, queue := d.queue.tail } node.dependencies
  change d.after node = _ at hfold
  refine ⟨fresh, ?_, by rw [hfold], ?_, by rw [hfold], hnodup, fun p hp => ?_, fun p hp => ?_⟩
  · rw [hfold, hnodes]
  · rw [hfold, found, found, hrest, ImportGraph.paths, hnodes, List.map_append]
    simp [ImportGraph.paths]
  · exact (hfresh p hp).imp_right fun hnew => mt (h.known p).2 hnew
  · exact (hall p hp).imp_left (h.known p).1

theorem IsPartial.paths_after (h : IsPartial files resolve entry d) {node : ImportNode}
    (hqueue : d.queue.head? = some node.path) :
    (d.after node).graph.paths = d.graph.paths ++ [node.path] := by
  obtain ⟨-, hnodes, -⟩ := h.exists_fresh hqueue
  rw [ImportGraph.paths, hnodes, List.map_append]
  rfl

/-- Reading the first module in the queue keeps what holds. -/
theorem IsPartial.after (h : IsPartial files resolve entry d) {node : ImportNode}
    (hqueue : d.queue.head? = some node.path) (hnode : files.IsNodeOf resolve node) :
    IsPartial files resolve entry (d.after node) := by
  obtain ⟨fresh, hnodes, hqueue', hfound, hknown, hnodup, hfresh, hall⟩ := h.exists_fresh hqueue
  have hin : node.path ∈ d.found := List.mem_append_right _ (List.mem_of_head? hqueue)
  have himports : ∀ p ∈ fresh, files.Imports resolve node.path p := fun p hp =>
    hnode.imports_iff.2 (hfresh p hp).1
  have hfar : ∀ p ∈ fresh, files.distance resolve entry p =
      files.distance resolve entry node.path + 1 := fun p hp =>
    h.distance_eq hqueue (himports p hp) (hfresh p hp).2
  have hnear : ∀ p ∈ (d.after node).found, files.distance resolve entry p ≤
      files.distance resolve entry node.path + 1 := by
    rw [hfound]
    exact List.forall_mem_append.2 ⟨h.span _ hqueue, fun p hp => (hfar p hp).le⟩
  refine ⟨fun p => ?_, ?_, ?_, ?_, fun a ha b hab => ?_, ?_, fun next hnext p hp => ?_, ?_⟩
  · rw [hknown, hfound, List.mem_append, List.mem_append, List.mem_reverse, h.known, or_comm]
  · rw [hfound, List.nodup_append]
    exact ⟨h.distinct, hnodup, fun p hp q hq heq => (hfresh q hq).2 (heq ▸ hp)⟩
  · rw [hfound, List.head?_append, h.first, Option.some_or]
  · rw [hfound]
    refine List.forall_mem_append.2 ⟨h.reached, fun p hp => ?_⟩
    exact (h.reached _ hin).tail (himports p hp)
  · rw [h.paths_after hqueue] at ha
    rw [hfound, List.mem_append]
    rcases List.mem_append.1 ha with ha | ha
    · exact .inl (h.closed a ha b hab)
    · rw [List.mem_singleton.1 ha] at hab
      exact hall b (hnode.imports_iff.1 hab)
  · rw [hfound, List.pairwise_append]
    refine ⟨h.nearest, ?_, fun p hp q hq => (hfar q hq).symm ▸ h.span _ hqueue p hp⟩
    exact List.pairwise_of_forall_mem_list fun p hp q hq => (hfar p hp).trans_le (hfar q hq).ge
  · refine (hnear p hp).trans (Nat.succ_le_succ ?_)
    rw [hqueue'] at hnext
    rcases List.mem_append.1 (List.mem_of_mem_head? hnext) with hnext | hnext
    · exact h.distance_le hqueue (List.mem_of_mem_tail hnext)
    · exact (Nat.le_succ _).trans_eq (hfar next hnext).symm
  · rw [hnodes]
    exact List.forall_mem_append.2 ⟨h.nodes, List.forall_mem_singleton.2 hnode⟩

/-- What was read are files, and no file was read twice. -/
theorem IsPartial.length_le (h : IsPartial files resolve entry d) (hentry : entry.IsNormal)
    (hresolve : resolve.IsNormal) : d.graph.paths.length ≤ files.fileCount := by
  refine FileTree.length_le_fileCount d.graph.distinct fun p hp => ⟨?_, ?_⟩
  · exact (h.reached p (List.mem_append_left _ hp)).isNormal hresolve hentry
  · obtain ⟨node, hnode, rfl⟩ := List.mem_map.1 hp
    obtain ⟨⟨source, hsource, -⟩, -⟩ := h.nodes node hnode
    exact ⟨source, FileTree.read_of_readModule hsource⟩

/-- The bound is not met: discovery with it is discovery without, by induction on the bound. -/
theorem IsPartial.exists_runs {fuel : Nat} (h : IsPartial files resolve entry d)
    (hentry : entry.IsNormal) (hresolve : resolve.IsNormal)
    (hfuel : files.fileCount < fuel + d.graph.paths.length) :
    ∃ reads, Runs files resolve d reads ((run files resolve fuel d).map graph) ∧
      (d.graph.paths ++ reads).Nodup ∧
      (∀ g, (run files resolve fuel d).map graph = .ok g →
        g.paths = d.graph.paths ++ reads ∧ g.IsClosure files resolve entry) ∧
      ∀ fault, (run files resolve fuel d).map graph = .error fault →
        files.HasFault resolve entry fault := by
  induction fuel generalizing d with
  | zero =>
    have hle := h.length_le hentry hresolve
    omega
  | succ fuel ih =>
    cases hqueue : d.queue.head? with
    | none =>
      have hempty := List.head?_eq_none_iff.1 hqueue
      rw [run_of_nil hempty]
      refine ⟨[], .done hempty, (List.append_nil _).symm ▸ d.graph.distinct, fun g hg => ?_,
        nofun⟩
      cases hg
      exact ⟨(List.append_nil _).symm, h.isClosure hempty⟩
    | some path =>
      rw [run_of_head? hqueue]
      cases hnode : files.importNode resolve path with
      | error fault =>
        refine ⟨[path], .fails hqueue hnode, ?_, nofun, fun fault' hfault => ⟨path, ?_, ?_⟩⟩
        · rw [← List.concat_eq_append]
          exact d.graph.distinct.concat (h.not_mem_paths hqueue)
        · exact h.reached path (List.mem_append_right _ (List.mem_of_head? hqueue))
        · cases hfault
          exact hnode
      | ok node =>
        obtain ⟨rfl, hnode'⟩ := FileTree.importNode_eq_ok_iff.1 hnode
        have hpaths := h.paths_after hqueue
        have hafter := h.after hqueue hnode'
        obtain ⟨reads, hruns, hdistinct, hok, herror⟩ := ih hafter (by
          rw [hpaths, List.length_append, List.length_singleton]
          omega)
        rw [hpaths, List.append_assoc] at hdistinct hok
        exact ⟨node.path :: reads, .reads hqueue hnode hruns, hdistinct, hok, herror⟩

end Discovery

namespace ImportGraph

theorem isClosure_of_discover {g : ImportGraph} (hentry : entry.IsNormal)
    (hresolve : resolve.IsNormal) (h : discover files resolve entry = .ok g) :
    g.IsClosure files resolve entry := by
  obtain ⟨_, -, -, hok, -⟩ :=
    (Discovery.isPartial_start entry).exists_runs hentry hresolve (Nat.lt_succ_self _)
  exact (hok g h).2

/-- Where discovery fails, it does so with the fault of a module that the entry leads to. -/
theorem hasFault_of_discover {fault : LoadFault} (hentry : entry.IsNormal)
    (hresolve : resolve.IsNormal) (h : discover files resolve entry = .error fault) :
    files.HasFault resolve entry fault := by
  obtain ⟨_, -, -, -, herror⟩ :=
    (Discovery.isPartial_start entry).exists_runs hentry hresolve (Nat.lt_succ_self _)
  exact herror fault h

/-- Discovery without a bound has one course, which comes to an end as discovery with the bound does
and reads no module twice. If it succeeds, what it read is the graph of all that the entry leads to,
nearest first. -/
theorem discover_reads (files : FileTree) (resolve : Resolver) (entry : ModulePath)
    (hentry : entry.IsNormal) (hresolve : resolve.IsNormal) :
    ∃ reads, (∀ reads' outcome, Discovery.Runs files resolve (Discovery.start entry) reads' outcome ↔
        reads' = reads ∧ outcome = discover files resolve entry) ∧ reads.Nodup ∧
      ∀ g, discover files resolve entry = .ok g →
        g.paths = reads ∧ g.IsClosure files resolve entry := by
  obtain ⟨reads, hruns, hdistinct, hok, -⟩ :=
    (Discovery.isPartial_start entry).exists_runs hentry hresolve (Nat.lt_succ_self _)
  refine ⟨reads, fun reads' outcome => ⟨hruns.unique, ?_⟩, hdistinct, hok⟩
  rintro ⟨rfl, rfl⟩
  exact hruns

theorem discover_reads_pair :
    let main : ModulePath := ⟨["main.ts"]⟩
    let a : ModulePath := ⟨["a.ts"]⟩
    let files : FileTree := ⟨[(["main.ts"], .file (some "import 'a'; import 'a.ts'")),
      (["a.ts"], .file (some "import 'main'"))]⟩
    let table : ResolverTable :=
      ⟨[((none, "a"), ⟨["a"]⟩), ((none, "a.ts"), a), ((none, "main"), main)]⟩
    main.IsNormal ∧ table.resolver.IsNormal ∧
      ∃ g, discover files table.resolver main = .ok g ∧
        g.nodes = [⟨main, ["a", "a.ts"], [a, a]⟩, ⟨a, ["main"], [main]⟩] ∧
        g.IsClosure files table.resolver main := by
  intro main a files table
  have hmain : main.IsNormal := by decide
  have hresolve : table.resolver.IsNormal := ResolverTable.isNormal_resolver (by decide)
  obtain ⟨reads, -, -, hok⟩ := discover_reads files table.resolver main hmain hresolve
  have hnodes : (discover files table.resolver main).toOption.map nodes =
      some [⟨main, ["a", "a.ts"], [a, a]⟩, ⟨a, ["main"], [main]⟩] := by decide +kernel
  cases hg : discover files table.resolver main with
  | error fault =>
    rw [hg] at hnodes
    cases hnodes
  | ok g =>
    rw [hg] at hnodes
    exact ⟨hmain, hresolve, g, rfl, Option.some.inj hnodes, (hok g hg).2⟩

end ImportGraph

end TypeStrip
