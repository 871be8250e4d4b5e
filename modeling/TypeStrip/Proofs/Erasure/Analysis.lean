import Mathlib.Data.List.Basic
import TypeStrip.Proofs.Erasure.Sites

/-! What the analyses of a module find does not depend on the parts that are left out. -/
namespace TypeStrip

namespace Site
variable (r : Reduction)

/-- Sites by induction: a site holds because those inside it do. -/
theorem induction_children {P : Site → Prop} (h : ∀ s, (∀ t ∈ s.children, P t) → P s) (s : Site) :
    P s :=
  h s fun t _ => induction_children h t
termination_by s.size
decreasing_by exact size_lt_of_mem_children (by assumption)

def isThis : Site → Bool
  | .expr (.this _) | .expr (.super _) => true
  | _ => false

/-- A wrapper has the wrapped expression inside it, and nothing else. -/
theorem dropped?_eq_some {s : Site} {e : Expr} (h : s.dropped? r = some e) :
    s.children = ofExprs [e] ∧ s.reduce r = .expr (e.reduce r) ∧ s.valueNames = [] ∧
      s.sharingThis = ofExprs [e] ∧ s.isThis = false := by
  cases s with
  | expr w =>
    simp only [dropped?] at h
    split at h
    · rename_i hr
      cases w <;> cases h <;> simp [children, ofExprParts, reduce, Expr.reduce, hr, valueNames,
        sharingThis, isThis]
    · cases h
  | _ => cases h

/-! ### Names -/

theorem walk_eq (s : Site) : s.walk = s :: s.children.flatMap walk := by
  rw [walk, List.flatMap_subtype (g := walk) fun _ _ => rfl, List.unattach_attach]

def allValueNames (s : Site) : List String := s.walk.flatMap valueNames

theorem allValueNames_eq (s : Site) :
    s.allValueNames = s.valueNames ++ s.children.flatMap allValueNames := by
  rw [allValueNames, walk_eq, List.flatMap_cons, List.flatMap_assoc]
  rfl

theorem allValueNames_omitted : (Site.expr .omitted).allValueNames = [] := by
  rw [allValueNames_eq]
  rfl

theorem isWritten_of_ne {s : Site} (h : s ≠ .expr .omitted) : s.isWritten = true := by
  unfold isWritten
  split
  · exact absurd rfl h
  · rfl

/-- Nothing is collected where nothing is written. -/
theorem flatMap_filter_isWritten {α : Type} {f : Site → List α} (hf : f (.expr .omitted) = [])
    (ss : List Site) : (ss.filter isWritten).flatMap f = ss.flatMap f := by
  induction ss with
  | nil => rfl
  | cons s ss ih =>
    by_cases hs : s = .expr .omitted
    · subst hs
      rw [List.filter_cons_of_neg (by simp [isWritten]), ih, List.flatMap_cons, hf, List.nil_append]
    · rw [List.filter_cons_of_pos (isWritten_of_ne hs), List.flatMap_cons, ih, List.flatMap_cons]

theorem valueNames_reduce (s : Site) (h : s.dropped? r = none) :
    (s.reduce r).valueNames = s.valueNames := by
  cases s with
  | expr e =>
    cases e with
    | cast | satisfies | nonNull =>
      have hr : r.wrappers = false := by
        cases hr : r.wrappers with
        | false => rfl
        | true => simp [dropped?, hr, wrapped?] at h
      simp only [reduce, Expr.reduce, hr, Bool.false_eq_true, if_false]
      rfl
    | _ => rfl
  | export_ i => cases i <;> rfl
  | _ => rfl

theorem flatMap_reduceAll {α : Type} {f : Site → List α} (hf : f (.expr .omitted) = [])
    {ss : List Site} (h : ∀ s ∈ ss, f (s.reduce r) = f s) :
    (reduceAll r ss).flatMap f = ss.flatMap f := by
  rw [reduceAll, flatMap_filter_isWritten hf, List.flatMap_map]
  exact List.flatMap_congr h

theorem flatMap_ofExprs_singleton {α : Type} {f : Site → List α} (hf : f (.expr .omitted) = [])
    (e : Expr) : (ofExprs [e]).flatMap f = f (.expr e) := by
  cases e with
  | omitted => exact hf.symm
  | _ => exact List.append_nil _

theorem allValueNames_reduce (s : Site) : (s.reduce r).allValueNames = s.allValueNames := by
  induction s using induction_children with
  | h s ih =>
    cases hd : s.dropped? r with
    | none =>
      rw [allValueNames_eq, allValueNames_eq, valueNames_reduce r s hd, children_reduce r s hd,
        flatMap_reduceAll r allValueNames_omitted ih]
    | some e =>
      obtain ⟨hc, hr, hv, -⟩ := dropped?_eq_some r hd
      have he : (reduceAll r (ofExprs [e])).flatMap allValueNames =
          (ofExprs [e]).flatMap allValueNames :=
        flatMap_reduceAll r allValueNames_omitted fun t ht => ih t (hc ▸ ht)
      rw [hr, allValueNames_eq s, hv, hc, List.nil_append, ← he, ← ofExprs_singleton_reduce,
        flatMap_ofExprs_singleton allValueNames_omitted]

/-! ### The `this` around a site -/

theorem usesThis_eq (s : Site) : s.usesThis = (s.isThis || s.sharingThis.any usesThis) := by
  have hr : s.isThis = false → s.usesThis = s.sharingThis.any usesThis := by
    intro h
    rw [usesThis, List.any_subtype (g := usesThis) fun _ _ => rfl, List.unattach_attach]
    · rintro span rfl
      cases h
    · rintro span rfl
      cases h
  cases h : s.isThis with
  | false => rw [hr h, Bool.false_or]
  | true =>
    rw [Bool.true_or]
    unfold isThis at h
    split at h
    · rw [usesThis]
    · rw [usesThis]
    · cases h

theorem usesThis_omitted : (Site.expr .omitted).usesThis = false := by
  rw [usesThis_eq]
  rfl

theorem isThis_reduce (s : Site) (h : s.dropped? r = none) : (s.reduce r).isThis = s.isThis := by
  cases s with
  | expr e =>
    cases e with
    | cast | satisfies | nonNull =>
      have hr : r.wrappers = false := by
        cases hr : r.wrappers with
        | false => rfl
        | true => simp [dropped?, hr, wrapped?] at h
      simp only [reduce, Expr.reduce, hr, Bool.false_eq_true, if_false]
      rfl
    | _ => rfl
  | _ => rfl

theorem sharingThis_reduce (s : Site) (h : s.dropped? r = none) :
    (s.reduce r).sharingThis = reduceAll r s.sharingThis := by
  cases s with
  | function f => rfl
  | cls c =>
    obtain ⟨name, tps, base, baseArgs, interfaces, ms, a, d⟩ := c
    simp only [reduce, Class.reduce, sharingThis, reduceExpr?_eq_map, ofExpr?_reduce]
  | _ => exact children_reduce r _ h

theorem any_reduceAll {f : Site → Bool} (hf : f (.expr .omitted) = false) {ss : List Site}
    (h : ∀ s ∈ ss, f (s.reduce r) = f s) : (reduceAll r ss).any f = ss.any f := by
  induction ss with
  | nil => rfl
  | cons s ss ih =>
    have hs := h s (List.mem_cons_self ..)
    have ih := ih fun t ht => h t (List.mem_cons_of_mem _ ht)
    by_cases hw : s.reduce r = .expr .omitted
    · rw [hw, hf] at hs
      rw [reduceAll, List.map_cons, hw, List.filter_cons_of_neg (by simp [isWritten]),
        List.any_cons, ← hs, Bool.false_or, ← ih, reduceAll]
    · rw [reduceAll_cons r (isWritten_of_ne hw), List.any_cons, List.any_cons, hs, ih]

theorem any_ofExprs_singleton {f : Site → Bool} (hf : f (.expr .omitted) = false) (e : Expr) :
    (ofExprs [e]).any f = f (.expr e) := by
  cases e with
  | omitted => exact hf.symm
  | _ => exact Bool.or_false _

theorem usesThis_reduce (s : Site) : (s.reduce r).usesThis = s.usesThis := by
  induction s using induction_children with
  | h s ih =>
    have ih (t : Site) (ht : t ∈ s.sharingThis) := ih t (mem_children_of_mem_sharingThis ht)
    cases hd : s.dropped? r with
    | none =>
      rw [usesThis_eq, usesThis_eq, isThis_reduce r s hd, sharingThis_reduce r s hd,
        any_reduceAll r usesThis_omitted ih]
    | some e =>
      obtain ⟨-, hr, -, hc, hn⟩ := dropped?_eq_some r hd
      have he : (reduceAll r (ofExprs [e])).any usesThis = (ofExprs [e]).any usesThis :=
        any_reduceAll r usesThis_omitted fun t ht => ih t (hc ▸ ht)
      rw [hr, usesThis_eq s, hn, hc, Bool.false_or, ← he, ← ofExprs_singleton_reduce,
        any_ofExprs_singleton usesThis_omitted]

end Site

/-! ### Modules -/

variable (r : Reduction)

@[simp] theorem Func.usesThis_reduce (f : Func) : (f.reduce r).usesThis = f.usesThis := by
  have := Site.children_reduce r (.arrow f) rfl
  rw [Func.usesThis, Func.usesThis, show Site.arrow (f.reduce r) = (Site.arrow f).reduce r from rfl,
    this]
  exact Site.any_reduceAll r Site.usesThis_omitted fun s _ => Site.usesThis_reduce r s

theorem Program.valueNames_eq (p : Program) :
    p.valueNames = p.items.flatMap fun i => (Site.item i).allValueNames := by
  rw [Program.valueNames, Program.sites, List.flatMap_assoc]
  rfl

@[simp] theorem Program.valueNames_reduce (p : Program) :
    (p.reduce r).valueNames = p.valueNames := by
  rw [Program.valueNames_eq, Program.valueNames_eq, Program.reduce, reduceItems_eq_map,
    List.flatMap_map]
  exact List.flatMap_congr fun i _ => Site.allValueNames_reduce r (.item i)

@[simp] theorem Item.declaration?_reduce (i : Item) :
    (i.reduce r).declaration? = i.declaration?.map (Decl.reduce r) := by
  cases i with
  | stmt s t => cases t <;> rfl
  | _ => rfl

/-- Declarations bind the same names when parts are left out. -/
private theorem boundNames_declaration?_reduce (keep : Decl → Bool)
    (h : ∀ d : Decl, keep (d.reduce r) = keep d) (i : Item) :
    ((i.reduce r).declaration?.toList.filter keep).flatMap Decl.boundNames =
      (i.declaration?.toList.filter keep).flatMap Decl.boundNames := by
  rw [Item.declaration?_reduce]
  cases i.declaration? with
  | none => rfl
  | some d =>
    by_cases hd : keep d = true
    · simp [h, hd]
    · simp [h, hd]

@[simp] theorem Item.typeNames_reduce (i : Item) : (i.reduce r).typeNames = i.typeNames := by
  have h := boundNames_declaration?_reduce r Decl.isTypeOnly (Decl.isTypeOnly_reduce r) i
  cases i with
  | import_ => rfl
  | _ => exact h

@[simp] theorem Item.declaredValues_reduce (i : Item) :
    (i.reduce r).declaredValues = i.declaredValues :=
  boundNames_declaration?_reduce r (fun d => !d.isTypeOnly)
    (fun d => by rw [Decl.isTypeOnly_reduce]) i

@[simp] theorem Program.typeOnlyNames_reduce (p : Program) :
    (p.reduce r).typeOnlyNames = p.typeOnlyNames := by
  simp only [Program.typeOnlyNames, Program.reduce, reduceItems_eq_map, List.flatMap_map,
    Item.typeNames_reduce, Item.declaredValues_reduce]

end TypeStrip
