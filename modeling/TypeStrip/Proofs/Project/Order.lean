import Mathlib.Data.List.Nodup
import Mathlib.Data.List.Perm.Subperm
import TypeStrip.Project.Order
import TypeStrip.Proofs.Project.Cycles

/-!
The order in which modules are loaded. At every moment each module is counted with the dependencies
that it still waits for; so without a cycle of imports no module is left over.
-/
namespace TypeStrip.ImportGraph

variable {g : ImportGraph} {path dependency : ModulePath} {placed releases : List ModulePath}
  {s : Schedule}

def ofNodes (added : List ImportNode) : ImportGraph :=
  added.foldl add { nodes := [], distinct := List.nodup_nil }

/-- All modules of a graph, each once and after everything that it depends on. -/
structure IsLoadOrder (g : ImportGraph) (order : List ModulePath) : Prop where
  distinct : order.Nodup
  complete : ∀ path, path ∈ order ↔ path ∈ g.paths
  dependenciesFirst : ∀ before path after, order = before ++ path :: after →
    ∀ dependency, g.Imports path dependency → dependency ∈ g.paths → dependency ∈ before

/-! ### What is added -/

theorem mem_paths_iff : path ∈ g.paths ↔ (g.find? path).isSome = true := by
  rw [find?_isSome, contains, List.contains_iff_mem]

theorem mem_paths_add {node : ImportNode} :
    path ∈ (g.add node).paths ↔ path ∈ g.paths ∨ path = node.path := by
  rw [mem_paths_iff, mem_paths_iff, find?_add]
  split
  · rename_i h
    simp [h]
  · rename_i h
    simp [h]

theorem mem_paths_ofNodes {added : List ImportNode} :
    path ∈ (ofNodes added).paths ↔ path ∈ added.map ImportNode.path := by
  have hfold : ∀ g : ImportGraph, path ∈ (added.foldl add g).paths ↔
      path ∈ g.paths ∨ path ∈ added.map ImportNode.path := by
    induction added with
    | nil => simp
    | cons node added ih =>
      intro g
      rw [List.foldl_cons, ih, mem_paths_add, List.map_cons, List.mem_cons, or_assoc]
  rw [ofNodes, hfold]
  exact or_iff_right List.not_mem_nil

/-! ### Dependencies -/

private theorem nodup_eraseDups (as : List ModulePath) : as.eraseDups.Nodup := by
  induction hn : as.length using Nat.strong_induction_on generalizing as with
  | _ n ih =>
    cases as with
    | nil => simp
    | cons a as =>
      rw [List.eraseDups_cons, List.nodup_cons]
      constructor
      · simp [List.mem_eraseDups]
      · have hle := List.length_filter_le (fun b => !b == a) as
        rw [List.length_cons] at hn
        exact ih _ (by omega) _ rfl

theorem mem_knownDependencies :
    dependency ∈ g.knownDependencies path ↔ g.Imports path dependency ∧ dependency ∈ g.paths := by
  rw [knownDependencies, List.mem_filter, List.mem_eraseDups, contains, List.contains_iff_mem]
  rfl

theorem nodup_knownDependencies (path : ModulePath) : (g.knownDependencies path).Nodup :=
  (nodup_eraseDups _).filter _

theorem mem_dependents {dependent : ModulePath} :
    dependent ∈ g.dependents path ↔ dependent ∈ g.paths ∧ path ∈ g.knownDependencies dependent := by
  rw [dependents, List.mem_filter, List.contains_iff_mem]

theorem count_dependents {dependent : ModulePath} (h : dependent ∈ g.paths) :
    (g.dependents path).count dependent = (g.knownDependencies dependent).count path := by
  have hdependents : (g.dependents path).Nodup := g.distinct.filter _
  rw [hdependents.count, (nodup_knownDependencies dependent).count]
  simp only [mem_dependents, h, true_and]

def pending (g : ImportGraph) (placed : List ModulePath) (path : ModulePath) : Nat :=
  (g.knownDependencies path).countP fun dependency => !placed.contains dependency

theorem pending_eq_zero : g.pending placed path = 0 ↔ g.knownDependencies path ⊆ placed := by
  rw [pending, List.countP_eq_zero, List.subset_def]
  simp

/-- A module that is placed is one dependency less for those that depend on it. -/
theorem pending_concat {dependent : ModulePath} (hnew : path ∉ placed)
    (h : dependent ∈ g.paths) : g.pending placed dependent =
      g.pending (placed ++ [path]) dependent + (g.dependents path).count dependent := by
  rw [count_dependents h, pending, pending]
  induction g.knownDependencies dependent with
  | nil => rfl
  | cons d ds ih =>
    rw [List.countP_cons, List.countP_cons, List.count_cons, ih]
    by_cases hd : d = path
    · subst hd
      simp [hnew]
      omega
    · simp [hd]
      omega

/-! ### Counters -/

/-- What the counter of a module shows while some modules are still to be released: the
dependencies that are not placed, and its own releases. -/
def owed (g : ImportGraph) (releases placed : List ModulePath) (path : ModulePath) : Nat :=
  g.pending placed path + releases.count path

/-- A moment of the ordering at which some modules are still to be released. -/
structure Schedule.Consistent (g : ImportGraph) (releases : List ModulePath) (s : Schedule) :
    Prop where
  waiting : s.waiting = g.paths.map fun path => (path, (g.owed releases s.placed path : Int))
  ready : ∀ path, path ∈ s.ready ↔
    path ∈ g.paths ∧ path ∉ s.placed ∧ g.owed releases s.placed path = 0
  distinct : (s.placed ++ s.ready).Nodup
  known : s.placed ⊆ g.paths
  ordered : ∀ before path after, s.placed = before ++ path :: after →
    g.knownDependencies path ⊆ before
  releases : ∀ path ∈ releases, path ∈ g.paths ∧ path ∉ s.placed

namespace Schedule

theorem Consistent.nonneg (h : s.Consistent g releases) : ∀ c ∈ s.waiting, 0 ≤ c.2 := by
  intro c hc
  rw [h.waiting, List.mem_map] at hc
  obtain ⟨path, -, rfl⟩ := hc
  exact Int.natCast_nonneg _

private theorem lookup_map {f : ModulePath → Int} {paths : List ModulePath} (h : path ∈ paths) :
    (paths.map fun p => (p, f p)).lookup path = some (f path) := by
  induction paths with
  | nil => cases h
  | cons p paths ih =>
    rw [List.map_cons, List.lookup_cons]
    by_cases hp : path = p
    · subst hp
      simp
    · have hne : (path == p) = false := beq_eq_false_iff_ne.2 hp
      rw [hne]
      exact ih ((List.mem_cons.1 h).resolve_left hp)

/-- The counters after one release. -/
private theorem Consistent.waiting_release (h : s.Consistent g (path :: releases)) :
    (s.waiting.map fun (p, n) => if p = path then (p, n - 1) else (p, n)) =
      g.paths.map fun p => (p, (g.owed releases s.placed p : Int)) := by
  rw [h.waiting, List.map_map]
  apply List.map_congr_left
  intro p _
  by_cases hp : p = path
  · subst hp
    simp [owed]
    omega
  · simp [owed, hp, Ne.symm hp]

/-- A release keeps the counters right, and a module that waits for nothing more gets ready. -/
theorem Consistent.release (h : s.Consistent g (path :: releases)) :
    (s.release path).Consistent g releases := by
  have hwaiting := h.waiting_release
  obtain ⟨hmem, hopen⟩ := h.releases path List.mem_cons_self
  have hreleases : ∀ p ∈ releases, p ∈ g.paths ∧ p ∉ s.placed := fun p hp =>
    h.releases p (List.mem_cons_of_mem _ hp)
  have hself : path ∉ s.ready := by
    intro hin
    have hzero := ((h.ready path).1 hin).2.2
    rw [owed, List.count_cons_self] at hzero
    omega
  have hother : ∀ p, p ≠ path →
      (p ∈ s.ready ↔ p ∈ g.paths ∧ p ∉ s.placed ∧ g.owed releases s.placed p = 0) := by
    intro p hp
    rw [h.ready p, owed, owed, List.count_cons_of_ne hp.symm]
  unfold Schedule.release
  dsimp only
  rw [hwaiting, lookup_map hmem]
  split
  · rename_i hzero
    have howed : g.owed releases s.placed path = 0 := by
      rw [Option.some.injEq] at hzero
      exact_mod_cast hzero
    refine ⟨rfl, fun p => ?_, ?_, h.known, h.ordered, hreleases⟩
    · rw [List.mem_append, List.mem_singleton]
      by_cases hp : p = path
      · subst hp
        exact iff_of_true (.inr rfl) ⟨hmem, hopen, howed⟩
      · rw [or_iff_left hp]
        exact hother p hp
    · rw [← List.append_assoc, List.nodup_append]
      refine ⟨h.distinct, List.nodup_singleton _, fun a ha b hb hab => ?_⟩
      rw [List.mem_singleton] at hb
      subst hab hb
      rcases List.mem_append.1 ha with ha | ha
      · exact hopen ha
      · exact hself ha
  · rename_i hpositive
    refine ⟨rfl, fun p => ?_, h.distinct, h.known, h.ordered, hreleases⟩
    by_cases hp : p = path
    · subst hp
      refine iff_of_false hself fun hin => hpositive ?_
      rw [hin.2.2]
      rfl
    · exact hother p hp

theorem Consistent.foldl_release {first rest : List ModulePath}
    (h : s.Consistent g (first ++ rest)) :
    (first.foldl Schedule.release s).Consistent g rest := by
  induction first generalizing s with
  | nil => exact h
  | cons path first ih => exact ih h.release

theorem placed_release (s : Schedule) (path : ModulePath) : (s.release path).placed = s.placed := by
  unfold release
  dsimp only
  split <;> rfl

theorem placed_foldl_release (s : Schedule) (paths : List ModulePath) :
    (paths.foldl release s).placed = s.placed := by
  induction paths generalizing s with
  | nil => rfl
  | cons path paths ih => rw [List.foldl_cons, ih, placed_release]

def withPlaced (s : Schedule) (path : ModulePath) (ready : List ModulePath) : Schedule :=
  { s with ready, placed := s.placed ++ [path] }

/-- Placing the first of the ready modules leaves its dependents to be released. -/
theorem Consistent.withPlaced (h : s.Consistent g []) {ready : List ModulePath}
    (hready : s.ready = path :: ready) :
    (s.withPlaced path ready).Consistent g (g.dependents path) := by
  obtain ⟨hmem, hnew, hzero⟩ := (h.ready path).1 (hready ▸ List.mem_cons_self)
  rw [owed, List.count_nil, Nat.add_zero] at hzero
  have howed : ∀ p ∈ g.paths, g.owed [] s.placed p =
      g.owed (g.dependents path) (s.placed ++ [path]) p := fun p hp =>
    pending_concat hnew hp
  have hdistinct := h.distinct
  rw [hready] at hdistinct
  have hnotReady : path ∉ ready := (List.nodup_cons.1 (List.nodup_append.1 hdistinct).2.1).1
  refine ⟨?_, fun p => ?_, ?_, ?_, ?_, ?_⟩
  · show s.waiting = _
    rw [h.waiting]
    exact List.map_congr_left fun p hp => by rw [howed p hp]; rfl
  · show p ∈ ready ↔ p ∈ g.paths ∧ p ∉ s.placed ++ [path] ∧ _
    have hp := h.ready p
    rw [hready, List.mem_cons] at hp
    rw [List.mem_append, List.mem_singleton, not_or]
    constructor
    · intro hin
      obtain ⟨hpaths, hplaced, hcount⟩ := hp.1 (.inr hin)
      have hne : p ≠ path := fun he => hnotReady (he ▸ hin)
      exact ⟨hpaths, ⟨hplaced, hne⟩, (howed p hpaths).symm.trans hcount⟩
    · rintro ⟨hpaths, ⟨hplaced, hne⟩, hcount⟩
      exact (hp.2 ⟨hpaths, hplaced, (howed p hpaths).trans hcount⟩).resolve_left hne
  · show (s.placed ++ [path] ++ ready).Nodup
    rwa [List.append_assoc]
  · show s.placed ++ [path] ⊆ g.paths
    exact List.append_subset.2 ⟨h.known, List.cons_subset.2 ⟨hmem, List.nil_subset _⟩⟩
  · intro before p after hsplit
    replace hsplit : s.placed ++ [path] = before ++ p :: after := hsplit
    rcases List.eq_nil_or_concat after with rfl | ⟨after, last, rfl⟩
    · obtain ⟨rfl, hlast⟩ := List.append_inj' hsplit rfl
      cases hlast
      exact pending_eq_zero.1 hzero
    · rw [List.concat_eq_append, ← List.cons_append, ← List.append_assoc] at hsplit
      exact h.ordered before p after (List.append_inj' hsplit rfl).1
  · intro dependent hd
    obtain ⟨hpaths, hdepends⟩ := mem_dependents.1 hd
    refine ⟨hpaths, fun hin => ?_⟩
    replace hin : dependent ∈ s.placed ++ [path] := hin
    -- A module that is placed waits for nothing, so that it does not depend on this one.
    have hsubset : g.knownDependencies dependent ⊆ s.placed := by
      rcases List.mem_append.1 hin with hin | hin
      · obtain ⟨before, after, hsplit⟩ := List.append_of_mem hin
        intro d hd
        rw [hsplit]
        exact List.mem_append_left _ (h.ordered before dependent after hsplit hd)
      · rw [List.mem_singleton.1 hin]
        exact pending_eq_zero.1 hzero
    exact hnew (hsubset hdepends)

end Schedule

/-! ### Steps -/

/-- The schedule in the middle of a step, when some dependents of the module that is placed are
released. -/
def during (g : ImportGraph) (s : Schedule) (released : Nat) : Schedule :=
  match s.ready with
  | [] => s
  | path :: ready =>
    ((g.dependents path).take released).foldl Schedule.release (s.withPlaced path ready)

theorem length_dependents_le (path : ModulePath) : (g.dependents path).length ≤ g.nodes.length := by
  have hle := List.length_filter_le
    (fun dependent => (g.knownDependencies dependent).contains path) g.paths
  rwa [paths, List.length_map] at hle

/-- A step ends when all dependents are released. -/
theorem during_length (g : ImportGraph) (s : Schedule) :
    g.during s g.nodes.length = g.place s := by
  unfold during place
  cases hready : s.ready with
  | nil => rfl
  | cons path ready =>
    dsimp only
    rw [List.take_of_length_le (length_dependents_le path)]
    rfl

theorem Schedule.Consistent.during (h : s.Consistent g []) (released : Nat) :
    ∃ releases, (g.during s released).Consistent g releases ∧
      (g.nodes.length ≤ released → releases = []) := by
  unfold ImportGraph.during
  split
  · exact ⟨[], h, fun _ => rfl⟩
  · rename_i path ready hready
    refine ⟨(g.dependents path).drop released, foldl_release ?_, fun hall => ?_⟩
    · rw [List.take_append_drop]
      exact h.withPlaced hready
    · exact List.drop_of_length_le ((length_dependents_le path).trans hall)

theorem consistent_initialSchedule (g : ImportGraph) : g.initialSchedule.Consistent g [] := by
  have hpending (path : ModulePath) :
      g.owed [] [] path = (g.knownDependencies path).length := by
    simp [owed, pending]
  refine ⟨?_, fun path => ?_, ?_, List.nil_subset _, ?_, nofun⟩
  · simp only [initialSchedule, hpending]
  · simp [initialSchedule, hpending, List.mem_filter]
  · rw [initialSchedule, List.nil_append]
    exact g.distinct.filter _
  · intro before path after hsplit
    simp [initialSchedule] at hsplit

theorem Schedule.Consistent.place (h : s.Consistent g []) : (g.place s).Consistent g [] := by
  obtain ⟨releases, hduring, hall⟩ := h.during g.nodes.length
  rwa [hall le_rfl, during_length] at hduring

theorem consistent_schedule (g : ImportGraph) (n : Nat) : (g.schedule n).Consistent g [] := by
  induction n with
  | zero => exact consistent_initialSchedule g
  | succ n ih => exact ih.place

/-- Every step places one module, as long as one is ready. -/
theorem ready_or_length_schedule (g : ImportGraph) (n : Nat) :
    (g.schedule n).ready = [] ∨ (g.schedule n).placed.length = n := by
  induction n with
  | zero => exact .inr rfl
  | succ n ih =>
    rw [schedule, place]
    split
    · rename_i hready
      exact .inl hready
    · rename_i path ready hready
      have hlength := ih.resolve_left (by simp [hready])
      right
      rw [Schedule.placed_foldl_release, List.length_append, hlength, List.length_singleton]

/-- After as many steps as there are modules, nothing is ready. -/
theorem ready_schedule_length (g : ImportGraph) : (g.schedule g.nodes.length).ready = [] := by
  rcases ready_or_length_schedule g g.nodes.length with h | h
  · exact h
  · have hs := consistent_schedule g g.nodes.length
    have hplaced := (List.nodup_append.1 hs.distinct).1
    have hperm : (g.schedule g.nodes.length).placed.Perm g.paths :=
      (hplaced.subperm hs.known).perm_of_length_le (by rw [h, paths, List.length_map])
    apply List.eq_nil_iff_forall_not_mem.2
    intro path hin
    obtain ⟨hmem, hnew, -⟩ := (hs.ready path).1 hin
    exact hnew (hperm.mem_iff.2 hmem)

/-- If nothing is ready, then every module is placed from which all trails come to an end. -/
theorem Schedule.Consistent.mem_placed (h : s.Consistent g []) (hready : s.ready = [])
    (hsettled : g.Settled path) (hmem : path ∈ g.paths) : path ∈ s.placed := by
  induction hsettled with
  | intro path _ ih =>
    by_contra hnew
    have hsubset : g.knownDependencies path ⊆ s.placed := by
      intro d hd
      obtain ⟨himports, hpaths⟩ := mem_knownDependencies.1 hd
      exact ih d himports hpaths
    have hin := (h.ready path).2 ⟨hmem, hnew, pending_eq_zero.2 hsubset⟩
    rw [hready] at hin
    cases hin

theorem isLoadOrder_schedule (h : g.cycle? = none) :
    g.IsLoadOrder (g.schedule g.nodes.length).placed := by
  have hs := consistent_schedule g g.nodes.length
  refine ⟨(List.nodup_append.1 hs.distinct).1, fun path => ⟨fun hin => hs.known hin, fun hmem => ?_⟩,
    ?_⟩
  · exact hs.mem_placed (ready_schedule_length g) (settled_of_cycle? h path) hmem
  · intro before path after hsplit dependency himports hmem
    exact hs.ordered before path after hsplit (mem_knownDependencies.2 ⟨himports, hmem⟩)

/-- Modules without a cycle of imports have an order in which they can be loaded, each of those that
were added once; no counter falls below zero on the way; and if there is a cycle, one is given. -/
theorem loadOrder_ofNodes (added : List ImportNode) :
    let g := ofNodes added
    (g.cycle? = none → ∃ order, g.loadOrder = .ok order ∧ g.IsLoadOrder order ∧
        ∀ path, path ∈ order ↔ path ∈ added.map ImportNode.path) ∧
      (∀ steps released, ∀ c ∈ (g.during (g.schedule steps) released).waiting, 0 ≤ c.2) ∧
      ((∃ path, Relation.TransGen g.Imports path path) →
        ∃ cycle, g.loadOrder = .error cycle ∧ g.IsCycle cycle) := by
  intro g
  refine ⟨fun h => ?_, fun steps released => ?_, fun ⟨path, hpath⟩ => ?_⟩
  · have horder := isLoadOrder_schedule h
    refine ⟨_, by rw [loadOrder, h], horder, fun path => ?_⟩
    rw [horder.complete, mem_paths_ofNodes]
  · obtain ⟨releases, hduring, -⟩ := (consistent_schedule g steps).during released
    exact hduring.nonneg
  · cases hc : g.cycle? with
    | none => exact absurd hpath (settled_of_cycle? hc path).not_transGen
    | some cycle => exact ⟨cycle, by rw [loadOrder, hc], isCycle_of_cycle? hc⟩

theorem loadOrder_ofNodes_twice :
    let a : ModulePath := ⟨["a.ts"]⟩
    let b : ModulePath := ⟨["b.ts"]⟩
    let c : ModulePath := ⟨["c.ts"]⟩
    let g := ofNodes [⟨c, [], [b, ⟨["d.ts"]⟩, b, a]⟩, ⟨a, [], [b]⟩, ⟨b, [], [c]⟩, ⟨b, [], []⟩]
    g.cycle? = none ∧ g.loadOrder = .ok [b, a, c] ∧ g.IsLoadOrder [b, a, c] := by
  intro a b c g
  have hc : g.cycle? = none := by decide
  obtain ⟨order, hload, horder, -⟩ := (loadOrder_ofNodes _).1 hc
  have hvalue : g.loadOrder = .ok [b, a, c] := by decide
  cases hvalue.symm.trans hload
  exact ⟨hc, hvalue, horder⟩

end TypeStrip.ImportGraph
