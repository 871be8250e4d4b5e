import Mathlib.Data.List.Chain
import Mathlib.Data.List.Nodup
import Mathlib.Data.List.Perm.Subperm
import Mathlib.Data.List.TakeWhile
import TypeStrip.Project.Cycle

/-! The search for cycles of imports finds one exactly if there is one, and what it finds is one. -/
namespace TypeStrip.ImportGraph

variable {g : ImportGraph}

def Imports (g : ImportGraph) (a b : ModulePath) : Prop := b ∈ g.dependencies a

/-- A trail of imports from a module back to itself that meets no module twice on its way. -/
structure IsCycle (g : ImportGraph) (c : List ModulePath) : Prop where
  length : 2 ≤ c.length
  closed : c.head? = c.getLast?
  distinct : c.dropLast.Nodup
  walk : c.IsChain g.Imports

/-- A module from which every trail of imports comes to an end. -/
def Settled (g : ImportGraph) (path : ModulePath) : Prop :=
  Acc (fun b a => g.Imports a b) path

theorem path_of_find? {path : ModulePath} {node : ImportNode} (h : g.find? path = some node) :
    node.path = path := by
  rw [find?] at h
  simpa using List.find?_some h

theorem find?_isSome (path : ModulePath) : (g.find? path).isSome = g.contains path := by
  rw [Bool.eq_iff_iff, find?, List.find?_isSome, contains, List.contains_iff_mem, paths, List.mem_map]
  simp only [beq_iff_eq]

theorem Imports.mem_paths {a b : ModulePath} (h : g.Imports a b) : a ∈ g.paths := by
  rw [Imports, dependencies] at h
  cases hf : g.find? a with
  | none =>
    rw [hf] at h
    cases h
  | some node => exact List.mem_map.2 ⟨node, List.mem_of_find?_eq_some hf, path_of_find? hf⟩

/-- The last node that was added for a module is its node. -/
theorem find?_add (g : ImportGraph) (node : ImportNode) (path : ModulePath) :
    (g.add node).find? path = if path = node.path then some node else g.find? path := by
  unfold add
  split
  · rename_i hin
    have hmap : (g.nodes.map (renewed node)).find? (fun n => n.path == path) =
        (g.find? path).map (renewed node) := by
      rw [List.find?_map, find?]
      simp only [Function.comp_def, path_renewed]
    refine hmap.trans ?_
    cases hf : g.find? path with
    | none =>
      rw [if_neg]
      · rfl
      · rintro rfl
        rw [← find?_isSome, hf] at hin
        cases hin
    | some old => rw [Option.map_some, renewed, path_of_find? hf, apply_ite some]
  · rename_i hout
    rw [find?, List.find?_append, ← find?]
    split
    · rename_i he
      subst he
      rw [← find?_isSome, Option.not_isSome_iff_eq_none] at hout
      rw [hout]
      simp
    · rename_i hne
      simp [Ne.symm hne]

theorem Settled.of_not_mem_paths {path : ModulePath} (h : path ∉ g.paths) : g.Settled path :=
  .intro path fun _ hi => absurd (Imports.mem_paths hi) h

/-- Trails that come to an end do not lead back to where they start. -/
theorem Settled.not_transGen {path : ModulePath} (h : g.Settled path) :
    ¬Relation.TransGen g.Imports path path := by
  intro hc
  have hacc : Acc (Relation.TransGen fun b a => g.Imports a b) path := Acc.transGen h
  have hback : Relation.TransGen (fun b a => g.Imports a b) path path :=
    Relation.transGen_swap.2 hc
  induction hacc with
  | intro path _ ih => exact ih path hback (.intro path fun _ hi => h.inv hi) hc hback

/-- A cycle leads from its first module back to it. -/
theorem IsCycle.exists_transGen {c : List ModulePath} (h : g.IsCycle c) :
    ∃ path, Relation.TransGen g.Imports path path := by
  obtain ⟨hlength, hclosed, -, hwalk⟩ := h
  match c, hlength with
  | a :: b :: rest, _ =>
    have hlast : (b :: rest).getLast (by simp) = a := by
      rw [List.head?_cons, List.getLast?_eq_some_getLast (by simp), Option.some.injEq] at hclosed
      exact hclosed.symm
    obtain ⟨hab, hba⟩ := List.isChain_cons_cons.1 hwalk
    exact ⟨a, .head' hab (List.relationReflTransGen_of_exists_isChain_cons rest hba hlast)⟩

/-! ### What is found -/

structure Follows (g : ImportGraph) (trail : List ModulePath) (path : ModulePath) : Prop where
  walk : (trail ++ [path]).IsChain g.Imports
  distinct : (trail ++ [path]).Nodup

theorem follows_nil (path : ModulePath) : g.Follows [] path := ⟨.singleton path, by simp⟩

variable {trail : List ModulePath} {path dependency : ModulePath}

/-- A trail goes on to a module that is not on it. -/
theorem Follows.next (h : g.Follows trail path) (hd : g.Imports path dependency)
    (hnew : dependency ∉ trail ++ [path]) : g.Follows (trail ++ [path]) dependency where
  walk := by
    refine h.walk.append (.singleton dependency) fun a ha b hb => ?_
    rw [List.getLast?_concat, Option.mem_some_iff] at ha
    rw [List.head?_cons, Option.mem_some_iff] at hb
    exact ha ▸ hb ▸ hd
  distinct := by
    refine List.nodup_append.2 ⟨h.distinct, List.nodup_singleton dependency, fun a ha b hb he => ?_⟩
    exact hnew (List.mem_singleton.1 hb ▸ he ▸ ha)

/-- Every module on a trail has a node, since it imports the one after it. -/
theorem Follows.subset (h : g.Follows trail path) : trail ⊆ g.paths := by
  intro a ha
  obtain ⟨before, after, rfl⟩ := List.append_of_mem ha
  have hw := h.walk
  rw [List.append_assoc, List.cons_append] at hw
  have htail := hw.right_of_append
  cases hr : after ++ [path] with
  | nil => simp at hr
  | cons b rest =>
    rw [hr] at htail
    exact Imports.mem_paths htail.rel

theorem Follows.length_le (h : g.Follows trail path) : trail.length ≤ g.nodes.length := by
  have hd := (List.nodup_append.1 h.distinct).1
  have hl := (hd.subperm h.subset).length_le
  rwa [paths, List.length_map] at hl

/-- Where a trail goes on to a module that is on it, it closes a cycle. -/
theorem Follows.isCycle_closing (h : g.Follows trail path) (hd : g.Imports path dependency)
    (hmem : dependency ∈ trail ++ [path]) : g.IsCycle (closing (trail ++ [path]) dependency) := by
  obtain ⟨before, rest, hsplit, hbefore⟩ := List.eq_append_cons_of_mem hmem
  have hclosing : closing (trail ++ [path]) dependency = dependency :: rest ++ [dependency] := by
    have hpass : ∀ a ∈ before, (a != dependency) = true := fun a ha =>
      bne_iff_ne.2 fun e => hbefore (e ▸ ha)
    rw [closing, hsplit, List.dropWhile_append_of_pos hpass]
    simp
  have hlast : (dependency :: rest).getLast? = some path := by
    have hl := congrArg List.getLast? hsplit
    rw [List.getLast?_concat, List.getLast?_append_cons] at hl
    exact hl.symm
  have hwalk := h.walk
  have hdistinct := h.distinct
  rw [hsplit] at hwalk hdistinct
  rw [hclosing]
  refine ⟨by simp, by rw [List.getLast?_concat]; rfl, ?_, ?_⟩
  · rw [List.dropLast_concat]
    exact (List.nodup_append.1 hdistinct).2.1
  · refine hwalk.right_of_append.append (.singleton dependency) fun a ha b hb => ?_
    rw [hlast, Option.mem_some_iff] at ha
    rw [List.head?_cons, Option.mem_some_iff] at hb
    exact ha ▸ hb ▸ hd

/-- A search through a list that fails does so at one of its elements. -/
private theorem exists_of_foldlM_error {α β ε : Type} {f : β → α → Except ε β} {as : List α} {b : β}
    {e : ε} (h : as.foldlM f b = .error e) : ∃ a ∈ as, ∃ b', f b' a = .error e := by
  induction as generalizing b with
  | nil => cases h
  | cons a as ih =>
    rw [List.foldlM_cons] at h
    cases hf : f b a with
    | error e' =>
      rw [hf] at h
      cases h
      exact ⟨a, List.mem_cons_self, b, hf⟩
    | ok b' =>
      rw [hf] at h
      obtain ⟨a', ha', hf'⟩ := ih h
      exact ⟨a', List.mem_cons_of_mem a ha', hf'⟩

/-- A search through a list that succeeds keeps an invariant and does so at each of its elements. -/
private theorem forall_of_foldlM_ok {α β ε : Type} {f : β → α → Except ε β} {as : List α}
    {b b' : β} {I : β → Prop} {P : α → Prop}
    (hstep : ∀ a ∈ as, ∀ b b', I b → f b a = .ok b' → I b' ∧ P a) (hb : I b)
    (h : as.foldlM f b = .ok b') : I b' ∧ ∀ a ∈ as, P a := by
  induction as generalizing b with
  | nil =>
    cases h
    exact ⟨hb, fun _ ha => nomatch ha⟩
  | cons a as ih =>
    rw [List.foldlM_cons] at h
    cases hf : f b a with
    | error e =>
      rw [hf] at h
      cases h
    | ok b'' =>
      rw [hf] at h
      obtain ⟨hb'', ha⟩ := hstep a List.mem_cons_self b b'' hb hf
      obtain ⟨hb', has⟩ := ih (fun a' ha' => hstep a' (List.mem_cons_of_mem a ha')) hb'' h
      exact ⟨hb', List.forall_mem_cons.2 ⟨ha, has⟩⟩

/-- What a search from the end of a trail finds is a cycle, by induction on the fuel. -/
theorem isCycle_of_searchFrom {fuel : Nat} {visited c : List ModulePath}
    (h : g.Follows trail path) (hr : g.searchFrom fuel trail visited path = .error c) :
    g.IsCycle c := by
  induction fuel generalizing trail path visited with
  | zero => cases hr
  | succ fuel ih =>
    rw [searchFrom] at hr
    obtain ⟨dependency, hd, visited', hf⟩ := exists_of_foldlM_error hr
    split at hf
    · rename_i hmem
      cases hf
      exact h.isCycle_closing hd (List.contains_iff_mem.1 hmem)
    · rename_i hnew
      split at hf
      · cases hf
      · exact ih (h.next hd fun hmem => hnew (List.contains_iff_mem.2 hmem)) hf

/-! ### What is not found -/

/-- Modules that were reached are on the trail or settled. -/
def Explored (g : ImportGraph) (trail visited : List ModulePath) : Prop :=
  ∀ path ∈ visited, path ∈ trail ∨ g.Settled path

/-- If a search from the end of a trail finds nothing, the module there is settled, and so is what
was reached on the way. -/
theorem settled_of_searchFrom {fuel : Nat} {visited visited' : List ModulePath}
    (h : g.Follows trail path) (hfuel : g.nodes.length < fuel + trail.length)
    (hv : g.Explored trail visited) (hr : g.searchFrom fuel trail visited path = .ok visited') :
    g.Explored trail visited' ∧ g.Settled path := by
  induction fuel generalizing trail path visited visited' with
  | zero =>
    have hle := h.length_le
    omega
  | succ fuel ih =>
    rw [searchFrom] at hr
    have hstart : g.Explored (trail ++ [path]) (path :: visited) := by
      refine List.forall_mem_cons.2 ⟨.inl (by simp), fun p hp => ?_⟩
      exact (hv p hp).imp_left fun ht => List.mem_append_left _ ht
    obtain ⟨hv', hds⟩ := forall_of_foldlM_ok (I := g.Explored (trail ++ [path])) (P := g.Settled)
      (fun d hd v v' hv hf => by
        split at hf
        · cases hf
        · rename_i hnew
          replace hnew : d ∉ trail ++ [path] := fun hmem => hnew (List.contains_iff_mem.2 hmem)
          split at hf
          · rename_i hmem
            cases hf
            exact ⟨hv, (hv d (List.contains_iff_mem.1 hmem)).resolve_left hnew⟩
          · refine ih (h.next hd hnew) ?_ hv hf
            rw [List.length_append, List.length_singleton]
            omega) hstart hr
    have hsettled : g.Settled path := .intro path fun d hd => hds d hd
    refine ⟨fun p hp => ?_, hsettled⟩
    rcases hv' p hp with ht | hs
    · rcases List.mem_append.1 ht with ht | ht
      · exact .inl ht
      · exact .inr (List.mem_singleton.1 ht ▸ hsettled)
    · exact .inr hs

theorem settled_of_search {visited : List ModulePath} (h : g.search = .ok visited)
    (path : ModulePath) : g.Settled path := by
  have hstart : g.Explored [] [] := fun _ hp => absurd hp List.not_mem_nil
  obtain ⟨-, hpaths⟩ := forall_of_foldlM_ok (I := g.Explored []) (P := g.Settled)
    (fun path _ v v' hv hf => by
      split at hf
      · rename_i hmem
        cases hf
        exact ⟨hv, (hv path (List.contains_iff_mem.1 hmem)).resolve_left List.not_mem_nil⟩
      · exact settled_of_searchFrom (follows_nil path) (by simp) hv hf) hstart h
  by_cases hp : path ∈ g.paths
  · exact hpaths path hp
  · exact .of_not_mem_paths hp

theorem isCycle_of_search {c : List ModulePath} (h : g.search = .error c) : g.IsCycle c := by
  obtain ⟨path, -, visited, hf⟩ := exists_of_foldlM_error h
  split at hf
  · cases hf
  · exact isCycle_of_searchFrom (follows_nil path) hf

theorem settled_of_cycle? (h : g.cycle? = none) (path : ModulePath) : g.Settled path := by
  rw [cycle?] at h
  cases hs : g.search with
  | error c =>
    rw [hs] at h
    cases h
  | ok visited => exact settled_of_search hs path

theorem isCycle_of_cycle? {c : List ModulePath} (h : g.cycle? = some c) : g.IsCycle c := by
  rw [cycle?] at h
  cases hs : g.search with
  | error c' =>
    rw [hs] at h
    cases h
    exact isCycle_of_search hs
  | ok visited =>
    rw [hs] at h
    cases h

/-- The search finds a cycle exactly if some module leads back to itself, and what it finds is a
cycle. -/
theorem cycle?_isSome_iff (g : ImportGraph) :
    (g.cycle?.isSome ↔ ∃ path, Relation.TransGen g.Imports path path) ∧
      ∀ c, g.cycle? = some c → g.IsCycle c := by
  rw [cycle?]
  cases hs : g.search with
  | error c =>
    have hc := isCycle_of_search hs
    exact ⟨iff_of_true rfl hc.exists_transGen, fun c' h => Option.some.inj h ▸ hc⟩
  | ok visited =>
    refine ⟨iff_of_false Bool.false_ne_true ?_, fun c h => nomatch h⟩
    rintro ⟨path, hp⟩
    exact (settled_of_search hs path).not_transGen hp

theorem isCycle_of_cycle?_pair :
    let a : ModulePath := ⟨["a.ts"]⟩
    let b : ModulePath := ⟨["b.ts"]⟩
    let g := (({} : ImportGraph).add ⟨a, [], [b]⟩).add ⟨b, [], [a]⟩
    g.cycle? = some [a, b, a] ∧ g.IsCycle [a, b, a] :=
  ⟨by decide, (cycle?_isSome_iff _).2 _ (by decide)⟩

end TypeStrip.ImportGraph
