import TypeStrip.Proofs.Erasure.Lowering

/-! What is written about types has no influence on the code of a module. -/
namespace TypeStrip
open Lowering

namespace Site
variable {r : Reduction}

theorem liveNamespace_subset {s : Site} (n : Namespace) (h : s ∈ liveNamespace n) :
    s ∈ ofNamespace n := by
  match n with
  | .block (.ident name) items isDeclare => exact (List.mem_ite_nil_left.1 h).2
  | .dotted (.ident name) span inner isDeclare =>
    exact liveNamespace_subset inner (List.mem_ite_nil_left.1 h).2
  | .block (.string name) .. | .dotted (.string name) .. | .ambient .. => cases h

theorem liveMember_subset {s : Site} (m : Member) (h : s ∈ liveMember m) : s ∈ ofMember m := by
  match m with
  | .constructor _ (.mk _ _ _ _ (.block _ _) _ _ _) => exact h
  | .constructor _ (.mk _ _ _ _ (.value _) _ _ _) | .constructor _ (.mk _ _ _ _ .absent _ _ _) =>
    cases h
  | .method _ k _ f _ => exact (List.mem_ite_nil_right.1 h).2
  | .field _ k _ (some e) m => exact (List.mem_ite_nil_left.1 h).2
  | .field _ k _ none m => cases h
  | .index .. | .call .. => cases h

theorem liveEnumMembers_subset {s : Site} (ms : List Member) (h : s ∈ liveEnumMembers ms) :
    s ∈ ms.flatMap ofEnumMember := by
  match ms with
  | .field _ _ _ init _ :: ms =>
    rw [List.flatMap_cons, List.mem_append]
    exact (List.mem_append.1 h).imp_right (liveEnumMembers_subset ms)
  | [] | .constructor .. :: _ | .method .. :: _ | .index .. :: _ | .call .. :: _ => cases h

theorem mem_ofExprs_cons {s : Site} (e : Expr) {es : List Expr} (h : s ∈ ofExprs es) :
    s ∈ ofExprs (e :: es) := by
  obtain ⟨a, ha, hs⟩ := List.mem_filterMap.1 h
  exact List.mem_filterMap.2 ⟨a, List.mem_cons_of_mem e ha, hs⟩

/-- What holds inside a site holds where it is lowered, if it holds of the values of shorthands with
those. -/
theorem forall_live {Q : Site → Prop} {s : Site} (h : ∀ t ∈ s.children, Q t)
    (hvalue : ∀ s a op b, Q (.expr (.assign s a op b)) → ∀ t ∈ ofExprs [b], Q t) :
    ∀ t ∈ s.live, Q t := by
  intro t ht
  cases s with
  | decl d =>
    refine h t ?_
    cases d with
    | namespace_ n => exact liveNamespace_subset n ht
    | enumeration name ms isConst isDeclare =>
      exact liveEnumMembers_subset ms (List.mem_ite_nil_left.1 ht).2
    | interface | alias_ => exact absurd ht List.not_mem_nil
    | _ => exact (List.mem_ite_nil_left.1 ht).2
  | cls c =>
    obtain ⟨name, tps, base, baseArgs, interfaces, ms, a, d⟩ := c
    refine h t ?_
    rcases List.mem_append.1 ht with ht | ht
    · exact List.mem_append_left _ ht
    · obtain ⟨m, hm, ht⟩ := List.mem_flatMap.1 ht
      exact List.mem_append_right _ (List.mem_flatMap.2 ⟨m, hm, liveMember_subset m ht⟩)
  | expr e =>
    cases e with
    | object s ps =>
      obtain ⟨p, hp, ht⟩ := List.mem_flatMap.1 ht
      have hin (u : Site) (hu : u ∈ ofProperty p) : Q u := h u (List.mem_flatMap.2 ⟨p, hp, hu⟩)
      match p with
      | .pair k v true =>
        rcases List.mem_cons.1 ht with rfl | ht
        · exact hin _ List.mem_cons_self
        · cases v with
          | assign s a op b => exact hvalue s a op b (hin _ (by simp [ofProperty, ofExprs])) t ht
          | _ => exact hin t (List.mem_cons_of_mem _ ht)
      | .pair _ _ false | .method .. | .spread _ => exact hin t ht
    | _ => exact h t ht
  | _ => exact h t ht

/-- Nothing is hidden where nothing can be. -/
theorem clear_of_forall {P : Site → Prop} (h : ∀ s, P s) (s : Site) : Clear P s := by
  induction s using induction_children with
  | h s ih =>
    refine .mk (h s) (forall_live ih fun s a op b hc t ht => hc.inside t ?_)
    exact mem_ofExprs_cons a ht

end Site

open Site
variable {r : Reduction}

/-! ### Forms when the wrappers stay -/

section
variable (hr : r.wrappers = false)
include hr

theorem swallowsDot_reduce (e : Expr) : swallowsDot (e.reduce r) = swallowsDot e := by
  cases e <;> simp [Expr.reduce, hr, swallowsDot]

theorem Expr.isCall_reduce (e : Expr) : (e.reduce r).isCall = e.isCall := by
  cases e <;> simp [Expr.reduce, hr, Expr.isCall]

theorem Expr.fallback?_reduce (e : Expr) :
    (e.reduce r).fallback? = e.fallback?.map (Expr.reduce r) := by
  cases e <;> simp [Expr.reduce, hr, Expr.fallback?]

theorem isVariableOf_reduce (k : Key) (e : Expr) :
    isVariableOf (k.reduce r) (e.reduce r) = isVariableOf k e := by
  cases k <;> cases e <;> simp [Key.reduce, Expr.reduce, hr, isVariableOf]

theorem isSuperCall_reduce (t : Stmt) : isSuperCall (t.reduce r) = isSuperCall t := by
  cases t with
  | expr s e =>
    cases e with
    | call s f ts args => cases f <;> simp [Stmt.reduce, Expr.reduce, hr, isSuperCall]
    | _ => simp [Stmt.reduce, Expr.reduce, hr, isSuperCall]
  | _ => rfl

theorem fold?_reduce (known : List (String × Constant)) (e : Expr) :
    fold? known (e.reduce r) = fold? known e := by
  match e with
  | .paren s e => rw [Expr.reduce, fold?, fold?, fold?_reduce known e]
  | .unary s op e => rw [Expr.reduce, fold?, fold?, fold?_reduce known e]
  | .binary s a op b =>
    rw [Expr.reduce, fold?, fold?, fold?_reduce known a, fold?_reduce known b]
  | .template s texts [] | .template s texts (e :: es) => rfl
  | .literal .. | .ident .. | .this .. | .super .. | .omitted => rfl
  | .assign .. | .call .. | .optionalCall .. | .new .. | .member .. | .optionalMember ..
  | .index .. | .optionalIndex .. | .array .. | .object .. | .arrow .. | .function .. | .cls ..
  | .conditional .. | .await .. | .yield .. | .sequence .. | .spread .. => rfl
  | .cast s a t | .satisfies s a t | .nonNull s a =>
    simp only [Expr.reduce, hr, Bool.false_eq_true, if_false]
    rfl

theorem MemberScope.constant?_reduce (scope : MemberScope) (init : Option Expr) :
    scope.constant? (init.map (Expr.reduce r)) = scope.constant? init := by
  cases init with
  | none => rfl
  | some e => exact fold?_reduce hr scope.known e

theorem sameConstants (scope : MemberScope) (ms : List Member) : SameConstants r scope ms := by
  match ms with
  | .field s k type init mods :: ms =>
    exact ⟨MemberScope.constant?_reduce hr scope init, sameConstants _ ms⟩
  | [] | .constructor .. :: _ | .method .. :: _ | .index .. :: _ | .call .. :: _ => trivial

theorem sameSuperCall (m : Member) : SameSuperCall r m := by
  match m with
  | .constructor s (.mk name tps ps ret (.block bs stmts) a g d) =>
    intro _
    rw [List.findIdx?_map]
    congr 1
    funext t
    exact isSuperCall_reduce hr t
  | .constructor s (.mk name tps ps ret .absent a g d)
  | .constructor s (.mk name tps ps ret (.value e) a g d) => trivial
  | .method .. | .field .. | .index .. | .call .. => trivial

theorem Site.unmasked (s : Site) : s.Unmasked r := by
  cases s with
  | expr e =>
    cases e with
    | member s a | optionalMember s a | index s a | optionalIndex s a =>
      exact swallowsDot_reduce hr a
    | new s f => exact Expr.isCall_reduce hr f
    | _ => trivial
  | decl d =>
    cases d with
    | enumeration name ms => exact sameConstants hr {} ms
    | _ => trivial
  | cls c =>
    obtain ⟨name, tps, base, baseArgs, interfaces, ms, a, d⟩ := c
    cases base with
    | none => trivial
    | some base => exact fun m _ => sameSuperCall hr m
  | _ => trivial

theorem Site.plainShorthand (s : Site) : s.PlainShorthand r := by
  cases s with
  | expr e =>
    cases e with
    | object s ps => exact fun k v _ => ⟨Expr.fallback?_reduce hr v, isVariableOf_reduce hr k v⟩
    | _ => trivial
  | _ => trivial

end

/-! ### Modules -/

/-- A module without type annotations, type parameters, type arguments and `implements` lists,
without marks and modifiers that only a type checker looks at, and with `any` for every type that
an expression is said to have. Types that cannot be left out are replaced. -/
def Program.untyped (type : TypeExpr → TypeExpr) (p : Program) : Program :=
  p.reduce { annotations := true, type }

/-- Types never influence the code of a module, whatever the target and the module format. -/
theorem Program.emit_untyped (type : TypeExpr → TypeExpr) (p : Program)
    (options : CompilerOptions) : (p.untyped type).emit options = p.emit options :=
  Program.emit_reduce p options fun s _ =>
    clear_of_forall (fun s => ⟨s.unmasked rfl, s.plainShorthand rfl⟩) s

end TypeStrip
