import Mathlib.Data.List.Nodup
import Mathlib.Data.List.Perm.Subperm
import TypeStrip.Files.Tree

/-! Simplified paths: how they are made, and that they lead straight to what they name. -/
namespace TypeStrip

namespace WrittenPath

def isName (part : String) : Bool := !staysInPlace part && part != ".."

theorem isName_of_length {part : String} (h : 3 ≤ part.length) : isName part = true := by
  have hne (other : String) (ho : other.length < 3) : part ≠ other := by
    rintro rfl
    omega
  rw [isName, staysInPlace, Bool.and_eq_true, Bool.not_eq_true', Bool.or_eq_false_iff]
  refine ⟨⟨?_, ?_⟩, ?_⟩
  · exact beq_eq_false_iff_ne.2 (hne "" (by decide))
  · exact beq_eq_false_iff_ne.2 (hne "." (by decide))
  · exact bne_iff_ne.2 (hne ".." (by decide))

theorem step_of_isName {part : String} (h : isName part = true) (segments : List String) :
    ModulePath.step segments part = segments ++ [part] := by
  rw [isName, Bool.and_eq_true, Bool.not_eq_true', bne_iff_ne] at h
  rw [ModulePath.step, h.1, if_neg Bool.false_ne_true, if_neg h.2]

end WrittenPath

open WrittenPath (isName isName_of_length step_of_isName)

namespace ModulePath

variable {p : ModulePath}

/-- A path of names only. Every path that is made of a text is one. -/
def IsNormal (p : ModulePath) : Prop := ∀ part ∈ p.segments, isName part = true

instance (p : ModulePath) : Decidable p.IsNormal :=
  inferInstanceAs (Decidable (∀ part ∈ p.segments, isName part = true))

theorem forall_isName_step {segments : List String} (h : ∀ part ∈ segments, isName part = true)
    (part : String) : ∀ q ∈ step segments part, isName q = true := by
  intro q hq
  unfold step at hq
  split at hq
  · exact h q hq
  · rename_i hmoves
    split at hq
    · exact h q (List.dropLast_subset _ hq)
    · rename_i hback
      rcases List.mem_append.1 hq with hq | hq
      · exact h q hq
      · rw [List.mem_singleton.1 hq, isName, Bool.and_eq_true, Bool.not_eq_true', bne_iff_ne]
        exact ⟨Bool.eq_false_iff.2 hmoves, hback⟩

theorem isNormal_ofWritten (p : WrittenPath) : (ofWritten p).IsNormal := by
  have hfold : ∀ segments : List String, (∀ part ∈ segments, isName part = true) →
      ∀ part ∈ p.parts.foldl step segments, isName part = true := by
    induction p.parts with
    | nil => exact fun _ h => h
    | cons part parts ih => exact fun segments h => ih _ (forall_isName_step h part)
  exact hfold [] (List.forall_mem_nil _)

theorem isNormal_join (p : ModulePath) (s : String) : (p.join s).IsNormal := isNormal_ofWritten _

theorem IsNormal.append (h : p.IsNormal) {s : String} (hs : 3 ≤ s.length) :
    (p.append s).IsNormal := by
  intro part hpart
  rcases List.mem_append.1 hpart with hpart | hpart
  · exact h part (List.dropLast_subset _ hpart)
  · rw [List.mem_singleton.1 hpart]
    apply isName_of_length
    rw [String.length_append]
    omega

theorem IsNormal.candidates (h : p.IsNormal) : ∀ c ∈ p.candidates, c.IsNormal := by
  have hprobed : ∀ extension ∈ probedExtensions, 2 ≤ extension.length := by decide
  intro c hc
  rcases List.mem_append.1 hc with hc | hc
  · obtain ⟨extension, he, rfl⟩ := List.mem_map.1 hc
    apply h.append
    rw [String.length_append]
    exact Nat.add_le_add (show 1 ≤ ".".length by decide) (hprobed extension he)
  · obtain ⟨extension, he, rfl⟩ := List.mem_map.1 hc
    intro part hpart
    rcases List.mem_append.1 hpart with hpart | hpart
    · exact h part hpart
    · rw [List.mem_singleton.1 hpart]
      apply isName_of_length
      rw [String.length_append]
      exact Nat.le_add_right_of_le (by decide)

end ModulePath

namespace FileTree

variable {files : FileTree} {p : ModulePath}

/-- Names lead straight on. -/
theorem entry?_of_walk {here parts : List String} {entry : Entry}
    (hparts : ∀ part ∈ parts, isName part = true) (h : files.walk here parts = .ok entry) :
    files.entry? (here ++ parts) = some entry := by
  induction parts generalizing here with
  | nil =>
    rw [walk] at h
    rw [List.append_nil]
    split at h
    · rename_i found hfound
      cases h
      exact hfound
    · cases h
  | cons part parts ih =>
    obtain ⟨hpart, hrest⟩ := List.forall_mem_cons.1 hparts
    rw [walk] at h
    split at h
    · rw [step_of_isName hpart] at h
      have hentry := ih hrest h
      rwa [List.append_assoc] at hentry
    · cases h
    · cases h

/-- What is read at a simplified path is the entry of the path. -/
theorem lookup_of_read (hp : p.IsNormal) {content : String}
    (h : files.read p.written = .ok content) :
    files.entries.lookup p.segments = some (.file (some content)) := by
  have hfind : files.find p.written = .ok (.file (some content)) := by
    rw [read] at h
    split at h
    · rename_i found hfound
      cases h
      exact hfound
    all_goals cases h
  have hentry := entry?_of_walk hp hfind
  rw [List.nil_append, entry?] at hentry
  split at hentry
  · cases hentry
  · exact hentry

/-- No more modules can be read than there are files. -/
theorem length_le_fileCount {paths : List ModulePath} (hdistinct : paths.Nodup)
    (h : ∀ p ∈ paths, p.IsNormal ∧ ∃ content, files.read p.written = .ok content) :
    paths.length ≤ files.fileCount := by
  let isFile : List String × Entry → Bool := fun e => e.2 != .directory
  have hsegments : (paths.map ModulePath.segments).Nodup := by
    refine hdistinct.map fun p q he => ?_
    cases p
    cases q
    exact congrArg ModulePath.mk he
  have hsubset : paths.map ModulePath.segments ⊆ (files.entries.filter isFile).map Prod.fst := by
    intro segments hin
    obtain ⟨p, hp, rfl⟩ := List.mem_map.1 hin
    obtain ⟨hnormal, content, hread⟩ := h p hp
    obtain ⟨before, after, hentries, -⟩ :=
      List.lookup_eq_some_iff.1 (lookup_of_read hnormal hread)
    have hmem : (p.segments, Entry.file (some content)) ∈ files.entries := by
      rw [hentries]
      exact List.mem_append_right _ List.mem_cons_self
    exact List.mem_map.2 ⟨_, List.mem_filter.2 ⟨hmem, rfl⟩, rfl⟩
  have hle := (hsegments.subperm hsubset).length_le
  rwa [List.length_map, List.length_map, ← List.countP_eq_length_filter] at hle

end FileTree

end TypeStrip
