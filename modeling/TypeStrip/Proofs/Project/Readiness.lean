import TypeStrip.Proofs.Project.Order

/-!
Which of several modules is placed first. Modules are placed first come, first served: in the order in
which they stop waiting for dependencies, and those that stop at the same moment in the order in which
they were added.
-/
namespace TypeStrip.ImportGraph

variable {g : ImportGraph} {path : ModulePath} {order placed releases : List ModulePath} {s : Schedule}

/-! ### Moments -/

/-- How many modules of an order there are up to the last dependency of a module. From then on the
module is ready. -/
def readyAt (g : ImportGraph) (order : List ModulePath) (path : ModulePath) : Nat :=
  (g.knownDependencies path).foldr (fun dependency n => max (order.idxOf dependency + 1) n) 0

/-- A module is ready before another one, or at the same moment and was added before it. -/
def Ahead (g : ImportGraph) (order : List ModulePath) (a b : ModulePath) : Prop :=
  g.readyAt order a < g.readyAt order b ∨
    (g.readyAt order a = g.readyAt order b ∧ g.paths.idxOf a < g.paths.idxOf b)

theorem readyAt_le_iff {n : Nat} : g.readyAt order path ≤ n ↔
    ∀ dependency ∈ g.knownDependencies path, order.idxOf dependency < n := by
  rw [readyAt]
  induction g.knownDependencies path with
  | nil => simp
  | cons d ds ih => rw [List.foldr_cons, Nat.max_le, ih, List.forall_mem_cons, Nat.succ_le_iff]

/-- The moment at which a module is ready does not depend on what is placed later. -/
theorem readyAt_append (h : g.knownDependencies path ⊆ placed) (later : List ModulePath) :
    g.readyAt (placed ++ later) path = g.readyAt placed path := by
  refine eq_of_forall_ge_iff fun n => ?_
  rw [readyAt_le_iff, readyAt_le_iff]
  refine forall₂_congr fun d hd => ?_
  rw [List.idxOf_append_of_mem (h hd)]

theorem readyAt_le_length (h : g.knownDependencies path ⊆ placed) :
    g.readyAt placed path ≤ placed.length :=
  readyAt_le_iff.2 fun _ hd => List.idxOf_lt_length_of_mem (h hd)

/-- A module whose last dependency has just been placed is ready from now on. -/
theorem readyAt_concat {dependency : ModulePath} (hnew : dependency ∉ placed)
    (hd : dependency ∈ g.knownDependencies path)
    (h : g.knownDependencies path ⊆ placed ++ [dependency]) :
    g.readyAt (placed ++ [dependency]) path = placed.length + 1 := by
  have hle := readyAt_le_length h
  rw [List.length_append, List.length_singleton] at hle
  refine le_antisymm hle (Nat.lt_of_not_le fun hearly => ?_)
  have hlt := readyAt_le_iff.1 hearly dependency hd
  rw [List.idxOf_append_of_notMem hnew] at hlt
  omega

/-! ### Steps -/

/-- The releases after a module is placed append those modules to the ready ones that wait for nothing
more. -/
theorem Schedule.Consistent.ready_foldl_release (h : s.Consistent g releases) (hn : releases.Nodup) :
    (releases.foldl Schedule.release s).ready =
      s.ready ++ releases.filter fun path => g.pending s.placed path = 0 := by
  induction releases generalizing s with
  | nil => simp
  | cons path releases ih =>
    obtain ⟨hpath, hn⟩ := List.nodup_cons.1 hn
    have howed : g.owed releases s.placed path = g.pending s.placed path := by
      rw [owed, List.count_eq_zero_of_not_mem hpath, Nat.add_zero]
    have hwaits : path ∉ s.ready := fun hin => by
      have hzero := ((h.ready path).1 hin).2.2
      rw [owed, List.count_cons_self] at hzero
      omega
    have hnext := h.release
    have hready : (s.release path).ready =
        s.ready ++ [path].filter fun path => g.pending s.placed path = 0 := by
      have hmem := hnext.ready path
      rw [placed_release, howed] at hmem
      unfold Schedule.release at hmem ⊢
      dsimp only at hmem ⊢
      split
      · rename_i hlookup
        rw [if_pos hlookup] at hmem
        have hzero := (hmem.1 (List.mem_append_right _ (List.mem_singleton_self path))).2.2
        simp [hzero]
      · rename_i hlookup
        rw [if_neg hlookup] at hmem
        obtain ⟨hpaths, hplaced⟩ := h.releases path List.mem_cons_self
        have hpositive : g.pending s.placed path ≠ 0 := fun hzero =>
          hwaits (hmem.2 ⟨hpaths, hplaced, hzero⟩)
        simp [hpositive]
    rw [List.foldl_cons, ih hnext hn, hready, placed_release, List.append_assoc, ← List.filter_append]
    rfl

/-- What is ready or placed waits for nothing more. -/
theorem Schedule.Consistent.knownDependencies_subset (h : s.Consistent g [])
    (hin : path ∈ s.placed ++ s.ready) : g.knownDependencies path ⊆ s.placed := by
  rcases List.mem_append.1 hin with hin | hin
  · obtain ⟨before, after, hsplit⟩ := List.append_of_mem hin
    rw [hsplit]
    exact List.subset_append_of_subset_left _ (h.ordered before path after hsplit)
  · have hzero := ((h.ready path).1 hin).2.2
    rw [owed, List.count_nil, Nat.add_zero] at hzero
    exact pending_eq_zero.1 hzero

/-- The modules of a graph come in the order of their places. -/
theorem pairwise_idxOf (g : ImportGraph) :
    g.paths.Pairwise fun a b => g.paths.idxOf a < g.paths.idxOf b := by
  have hdistinct : g.paths.Nodup := g.distinct
  rw [List.pairwise_iff_getElem]
  intro i j hi hj hij
  rwa [hdistinct.idxOf_getElem, hdistinct.idxOf_getElem]

/-- Placed and ready modules are in the order in which they got ready. -/
def Schedule.InOrder (g : ImportGraph) (s : Schedule) : Prop :=
  (s.placed ++ s.ready).Pairwise (g.Ahead s.placed)

theorem inOrder_initialSchedule (g : ImportGraph) : g.initialSchedule.InOrder g := by
  have hready : ∀ path ∈ g.initialSchedule.ready, g.readyAt [] path = 0 := fun path hin =>
    Nat.le_zero.1 (readyAt_le_length ((consistent_initialSchedule g).knownDependencies_subset
      (List.mem_append_right _ hin)))
  have hsorted := (pairwise_idxOf g).filter fun path => (g.knownDependencies path).isEmpty
  refine hsorted.imp_of_mem fun {a b} ha hb hab => .inr ⟨?_, hab⟩
  exact (hready a ha).trans (hready b hb).symm

/-- A step keeps the order: what gets ready is later than all that was ready before. -/
theorem Schedule.InOrder.place (hs : s.Consistent g []) (h : s.InOrder g) :
    (g.place s).InOrder g := by
  unfold ImportGraph.place
  cases hready : s.ready with
  | nil => exact h
  | cons path ready =>
    obtain ⟨-, hnew, -⟩ := (hs.ready path).1 (hready ▸ List.mem_cons_self)
    have hplaced := placed_foldl_release (s.withPlaced path ready) (g.dependents path)
    have hreleased := (hs.withPlaced hready).ready_foldl_release (g.distinct.filter _)
    change (List.foldl Schedule.release (s.withPlaced path ready) (g.dependents path)).InOrder g
    rw [InOrder, hplaced, hreleased]
    change (s.placed ++ [path] ++ (ready ++ (g.dependents path).filter
      fun p => g.pending (s.placed ++ [path]) p = 0)).Pairwise (g.Ahead (s.placed ++ [path]))
    have hbefore : s.placed ++ [path] ++ ready = s.placed ++ s.ready := by
      rw [hready, List.append_assoc, List.singleton_append]
    have hlate : ∀ p ∈ (g.dependents path).filter fun p => g.pending (s.placed ++ [path]) p = 0,
        g.readyAt (s.placed ++ [path]) p = s.placed.length + 1 := by
      intro p hp
      obtain ⟨hdependent, hzero⟩ := List.mem_filter.1 hp
      exact readyAt_concat hnew (mem_dependents.1 hdependent).2
        (pending_eq_zero.1 (of_decide_eq_true hzero))
    rw [← List.append_assoc, hbefore, List.pairwise_append]
    refine ⟨h.imp_of_mem fun {a b} ha hb hab => ?_, ?_, fun a ha b hb => .inl ?_⟩
    · rwa [Ahead, readyAt_append (hs.knownDependencies_subset ha),
        readyAt_append (hs.knownDependencies_subset hb)]
    · refine (((pairwise_idxOf g).filter _).filter _).imp_of_mem fun {a b} ha hb hab => ?_
      exact .inr ⟨(hlate a ha).trans (hlate b hb).symm, hab⟩
    · have hsubset := hs.knownDependencies_subset ha
      rw [hlate b hb, readyAt_append hsubset]
      exact Nat.lt_succ_iff.2 (readyAt_le_length hsubset)

theorem inOrder_schedule (g : ImportGraph) (n : Nat) : (g.schedule n).InOrder g := by
  induction n with
  | zero => exact inOrder_initialSchedule g
  | succ n ih => exact ih.place (consistent_schedule g n)

/-- Modules without a cycle of imports are ordered first come, first served. At every position of the
order stands, of all modules that are ready and not placed yet, the one that got ready first, and of
those that got ready at the same moment the one that was added first. -/
theorem loadOrder_firstCome (h : g.cycle? = none) : ∃ order, g.loadOrder = .ok order ∧
    g.IsLoadOrder order ∧ order.Pairwise (g.Ahead order) ∧
    ∀ before path after, order = before ++ path :: after →
      g.knownDependencies path ⊆ before ∧
        ∀ other ∈ after, g.knownDependencies other ⊆ before → g.Ahead before path other := by
  have horder := isLoadOrder_schedule h
  have hsorted := inOrder_schedule g g.nodes.length
  rw [Schedule.InOrder, ready_schedule_length, List.append_nil] at hsorted
  refine ⟨_, by rw [loadOrder, h], horder, hsorted, fun before path after hsplit => ?_⟩
  have hpath : g.knownDependencies path ⊆ before := fun d hd => by
    obtain ⟨himports, hmem⟩ := mem_knownDependencies.1 hd
    exact horder.dependenciesFirst before path after hsplit d himports hmem
  refine ⟨hpath, fun other hother hready => ?_⟩
  rw [hsplit] at hsorted
  have hahead := (List.pairwise_cons.1 (List.pairwise_append.1 hsorted).2.1).1 other hother
  rwa [Ahead, readyAt_append hpath, readyAt_append hready] at hahead

/-- The first module gets ready when the second one is placed, and so has to wait for the third one,
which was ready before. -/
example :
    let a : ModulePath := ⟨["a.ts"]⟩
    let b : ModulePath := ⟨["b.ts"]⟩
    let c : ModulePath := ⟨["c.ts"]⟩
    (ofNodes [⟨a, [], [b]⟩, ⟨b, [], []⟩, ⟨c, [], []⟩]).loadOrder = .ok [b, c, a] := by
  decide

end TypeStrip.ImportGraph
