import Mathlib.Data.List.Perm.Basic
import TypeStrip.Project.Import
import TypeStrip.Proofs.Erasure.Analysis

/-!
In which order imports are found. They are found in the order in which they are written, except that
the test of a `do` loop is looked at before its body.
-/
namespace TypeStrip

namespace Site

def imported? : Site → Option String
  | .import_ d => some d.source
  | _ => none

def imports (s : Site) : List String := s.walk.filterMap imported?

def written : Site → List Site
  | .stmt (.doWhile _ body test) => .stmt body :: ofExprs [test]
  | s => s.children

theorem written_perm (s : Site) : s.written.Perm s.children := by
  unfold written
  split
  · exact (List.perm_append_singleton _ _).symm
  · exact .refl _

def writtenImports (s : Site) : List String :=
  s.imported?.toList ++ s.written.attach.flatMap fun ⟨t, _⟩ => t.writtenImports
termination_by s.size
decreasing_by exact size_lt_of_mem_children (s.written_perm.mem_iff.1 (by assumption))

theorem imports_eq (s : Site) : s.imports = s.imported?.toList ++ s.children.flatMap imports := by
  rw [imports, walk_eq, List.filterMap_cons, List.filterMap_flatMap]
  cases s.imported? <;> rfl

theorem writtenImports_eq (s : Site) :
    s.writtenImports = s.imported?.toList ++ s.written.flatMap writtenImports := by
  rw [writtenImports, List.flatMap_subtype (g := writtenImports) fun _ _ => rfl,
    List.unattach_attach]

theorem imports_perm (s : Site) : s.imports.Perm s.writtenImports := by
  induction s using induction_children with
  | h s ih =>
    rw [imports_eq, writtenImports_eq]
    refine .append_left _ ((List.Perm.flatMap_left _ ih).trans ?_)
    exact (s.written_perm.flatMap_right _).symm

/-- A `do` loop does not have imports both in its body and in its test. -/
def KeepsOrder : Site → Prop
  | .stmt (.doWhile _ body test) =>
    (Site.stmt body).imports = [] ∨ (ofExprs [test]).flatMap imports = []
  | _ => True

theorem flatMap_imports_written {s : Site} (h : s.KeepsOrder) :
    s.written.flatMap imports = s.children.flatMap imports := by
  unfold written
  split
  · next span body test =>
    change _ = (ofExprs [test] ++ [Site.stmt body]).flatMap imports
    rw [List.flatMap_cons, List.flatMap_append, List.flatMap_singleton]
    rcases h with h | h
    · rw [h, List.nil_append, List.append_nil]
    · rw [h, List.nil_append, List.append_nil]
  · rfl

theorem imports_eq_writtenImports {s : Site} (h : ∀ t ∈ s.walk, t.KeepsOrder) :
    s.imports = s.writtenImports := by
  induction s using induction_children with
  | h s ih =>
    rw [walk_eq, List.forall_mem_cons] at h
    rw [imports_eq, writtenImports_eq, ← flatMap_imports_written h.1]
    congr 1
    refine List.flatMap_congr fun t ht => ?_
    have ht : t ∈ s.children := s.written_perm.mem_iff.1 ht
    exact ih t ht fun u hu => h.2 u (List.mem_flatMap.2 ⟨t, ht, hu⟩)

end Site

namespace Program

def writtenImports (p : Program) : List String :=
  p.items.flatMap fun i => (Site.item i).writtenImports

theorem importSpecifiers_eq_flatMap (p : Program) :
    p.importSpecifiers = p.items.flatMap fun i => (Site.item i).imports :=
  List.filterMap_flatMap

/-- Every import is found once. -/
theorem importSpecifiers_perm (p : Program) : p.importSpecifiers.Perm p.writtenImports := by
  rw [importSpecifiers_eq_flatMap]
  exact List.Perm.flatMap_left _ fun i _ => Site.imports_perm _

/-- Imports are found in the order in which they are written, if no `do` loop has imports both in
its body and in its test. -/
theorem importSpecifiers_eq_writtenImports (p : Program) (h : ∀ s ∈ p.sites, s.KeepsOrder) :
    p.importSpecifiers = p.writtenImports := by
  rw [importSpecifiers_eq_flatMap]
  refine List.flatMap_congr fun i hi => Site.imports_eq_writtenImports fun t ht => ?_
  exact h t (List.mem_flatMap.2 ⟨i, hi, ht⟩)

end Program

example : (Grammar.parseModule
    "do \x7b import './a' \x7d while (() => \x7b import './b' \x7d)" 0).toOption.map
      (fun p => (p.importSpecifiers, p.writtenImports)) =
        some (["./b", "./a"], ["./a", "./b"]) := by
  decide +kernel

end TypeStrip
