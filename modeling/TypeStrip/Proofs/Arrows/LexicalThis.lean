import TypeStrip.Lowering.Module
import TypeStrip.Proofs.Erasure.Analysis

/-!
The `this` of arrows: which sites inside an arrow see the `this` around it, and how far the analysis
that decides about binding finds them. It finds all of them but those in the keys of class members.
-/
namespace TypeStrip

/-! ### Sites that see the `this` around them -/

def Class.keySites (c : Class) : List Site :=
  c.members.filterMap fun
    | .method _ k _ _ _ | .field _ k _ _ _ => some (.key k)
    | _ => none

namespace Site

/-- The parts of a site where `this` means what it means around the site. Functions have a `this` of
their own, and so have the members of a class, but not their keys. -/
def seeingThis : Site → List Site
  | .function _ => []
  | .cls c => (Site.cls c).sharingThis ++ c.keySites
  | s => s.children

/-- A site that is `this` or `super`, or has it inside where it means what it means around the
site. -/
inductive SeesThis : Site → Prop where
  | here {s : Site} (h : s.isThis = true) : SeesThis s
  | inside {s t : Site} (ht : t ∈ s.seeingThis) (h : SeesThis t) : SeesThis s

/-- A site with a class inside whose `this` is that around the site and that has a key that sees
it. -/
inductive KeySeesThis : Site → Prop where
  | here {c : Class} {k : Site} (hk : k ∈ c.keySites) (h : k.SeesThis) : KeySeesThis (.cls c)
  | inside {s t : Site} (ht : t ∈ s.sharingThis) (h : KeySeesThis t) : KeySeesThis s

variable {s t : Site}

theorem mem_seeingThis (h : t ∈ s.sharingThis) : t ∈ s.seeingThis := by
  cases s with
  | cls c => exact List.mem_append_left _ h
  | _ => exact h

/-- The keys of class members are all that the analysis passes over. -/
theorem mem_sharingThis_or_key (h : t ∈ s.seeingThis) :
    t ∈ s.sharingThis ∨ ∃ c : Class, s = .cls c ∧ t ∈ c.keySites := by
  cases s with
  | cls c => exact (List.mem_append.1 h).imp_right fun hk => ⟨c, rfl, hk⟩
  | _ => exact .inl h

/-- One step of the analysis. -/
theorem usesThis_iff_step :
    s.usesThis = true ↔ s.isThis = true ∨ ∃ t ∈ s.sharingThis, t.usesThis = true := by
  rw [usesThis_eq, Bool.or_eq_true, List.any_eq_true]

/-- What is found sees the `this` around it. -/
theorem seesThis_of_usesThis (h : s.usesThis = true) : s.SeesThis := by
  induction s using induction_children with
  | h s ih =>
    rcases usesThis_iff_step.1 h with hthis | ⟨t, ht, huses⟩
    · exact .here hthis
    · exact .inside (mem_seeingThis ht) (ih t (mem_children_of_mem_sharingThis ht) huses)

theorem KeySeesThis.seesThis (h : s.KeySeesThis) : s.SeesThis := by
  induction h with
  | here hk h => exact .inside (List.mem_append_right _ hk) h
  | inside ht _ ih => exact .inside (mem_seeingThis ht) ih

/-- A site sees the `this` around it exactly if that is found, or if the key of a class member sees
it. -/
theorem seesThis_iff : s.SeesThis ↔ s.usesThis = true ∨ s.KeySeesThis := by
  refine ⟨fun h => ?_, fun h => h.elim seesThis_of_usesThis KeySeesThis.seesThis⟩
  induction h with
  | here hthis => exact .inl (usesThis_iff_step.2 (.inl hthis))
  | @inside s t ht hsees ih =>
    rcases mem_sharingThis_or_key ht with hshares | ⟨c, rfl, hk⟩
    · refine ih.imp (fun huses => ?_) (.inside hshares)
      exact usesThis_iff_step.2 (.inr ⟨t, hshares, huses⟩)
    · exact .inr (.here hk hsees)

end Site

/-! ### Arrows -/

namespace Func

variable {f : Func}

def SeesThis (f : Func) : Prop := ∃ s ∈ (Site.arrow f).children, s.SeesThis

def KeySeesThis (f : Func) : Prop := ∃ s ∈ (Site.arrow f).children, s.KeySeesThis

theorem seesThis_iff : f.SeesThis ↔ f.usesThis = true ∨ f.KeySeesThis := by
  simp only [SeesThis, KeySeesThis, usesThis, List.any_eq_true, Site.seesThis_iff, and_or_left,
    exists_or]

end Func

namespace Lowering

variable {ctx : Context} {f : Func} {s : Span} {used : List String}

/-- On a target without arrows, an arrow becomes a plain function, which is bound to the `this`
around it if the arrow sees that outside the keys of class members. -/
theorem lowerExpr_arrow (htarget : ctx.options.target.lacksArrows = true)
    (hkeys : ¬f.KeySeesThis) :
    let code := ((lowerExpr ctx (.arrow s f)).run used).1
    let plain := Code.Expr.function ((lowerFunc ctx f).run used).1
    (f.SeesThis → code = .call (.member plain "bind") [.this]) ∧ (¬f.SeesThis → code = plain) := by
  have hcode : ((lowerExpr ctx (.arrow s f)).run used).1 =
      lowerArrow ctx f.usesThis ((lowerFunc ctx f).run used).1 := by
    rw [lowerExpr]
    rfl
  have hiff : f.SeesThis ↔ f.usesThis = true := Func.seesThis_iff.trans (or_iff_left hkeys)
  dsimp only
  rw [hcode, hiff, lowerArrow, if_pos htarget]
  exact ⟨fun h => if_pos h, fun h => if_neg h⟩

end Lowering

/-- The arrow `() => class { [this.k]() { } }`. Its `this` is not found. -/
theorem Func.seesThis_of_key :
    let key : Expr := .member default (.this default) ⟨default, "k"⟩
    let method : Func := .mk none [] [] none (.block default []) false false false
    let c : Class := .mk none [] none [] [] [.method default (.computed key) .method method {}] false false
    let f : Func := .mk none [] [] none (.value (.cls default c)) false false false
    f.SeesThis ∧ f.usesThis = false := by
  intro key method c f
  have hkey : (Site.key (.computed key)).SeesThis :=
    .inside (t := .expr key) List.mem_cons_self
      (.inside (t := .expr (.this default)) List.mem_cons_self (.here rfl))
  have hcls : (Site.cls c).SeesThis := .inside (t := .key (.computed key)) List.mem_cons_self hkey
  refine ⟨⟨.expr (.cls default c), List.mem_cons_self, .inside List.mem_cons_self hcls⟩, ?_⟩
  have hmissed : (Site.cls c).usesThis = false := Site.usesThis_eq _
  show [Site.expr (.cls default c)].any Site.usesThis = false
  rw [List.any_cons, Site.usesThis_eq]
  show ([Site.cls c].any Site.usesThis || false) = false
  rw [List.any_cons, hmissed]
  rfl

end TypeStrip
