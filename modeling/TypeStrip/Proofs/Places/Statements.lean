import TypeStrip.Grammar.Statement
import TypeStrip.Proofs.Places.Declarations

/-! Statements are located. -/
namespace TypeStrip.Grammar
open Outlined
open TypeStrip.Token (Kind)

variable {S : Source} {stop : Nat} {g : Inner} {t : Tape} {start : Span} {os : List Outline}

theorem locatesAt_ifStatement (hg : LocatesInner S stop g) :
    LocatesAt S stop t start os (Whole S) (ifStatement g start) := by
  refine .expect' (by decide) fun s t => .bind (locates_parenthesized hg t) fun e t _ => ?_
  refine .bind (hg.stmt t) fun yes t _ => .bind (locates_accept (by decide) t) fun _ t _ => ?_
  refine .ite (fun _ => .bind (hg.stmt t) fun no t _ => .since ?_) fun _ => .since ?_
  · exact .node trivial rfl (by simp) (by grind)
  · exact .node trivial rfl (by simp) (by grind)

/-! ### Loops -/

theorem locates_forHead (hg : LocatesInner S stop g) : Locates S stop (forHead g) := by
  refine fun t => .get <| .ite (fun _ => .nothing ⟨trivial, trivial⟩ rfl) fun _ =>
    .ite (fun _ => ?_) fun _ => ?_
  · refine .bind (locates_declarators hg t) fun ds t _ => .ofParts ⟨trivial, trivial⟩ nofun ?_
    rw [parts_pair, parts_forHead, ForHead.outline]
    grind
  · refine .bind (locates_expression hg t) fun e t _ => .ofParts ⟨trivial, trivial⟩ nofun ?_
    rw [parts_pair, parts_forHead, ForHead.outline]
    grind

/-- The parts of a loop over an object are its head, the object and the body. -/
theorem locatesAt_forEach (hg : LocatesInner S stop g) (h : t.Passable) {object : Parser Expr}
    (ho : Locates S stop object) {head : ForHead} {make : Span → Expr → Stmt → Stmt}
    (hm : ∀ s e a, (make s e a).outline = [.node s .plain (head.outline ++ e.outline ++ a.outline)])
    (hhead : head.outline ⊆ os) :
    LocatesAt S stop t start os (Whole S) (forEach g start object make) := by
  refine .skip h <| .bind (ho _) fun e t _ => .expect' (by decide) fun s t =>
    .bind (hg.stmt t) fun a t _ => ?_
  exact .since <| .node trivial (hm _ _ _) (by simp) (by grind)

theorem locatesAt_forSteps (hg : LocatesInner S stop g) {head : ForHead}
    (hhead : head.outline ⊆ os) :
    LocatesAt S stop t start os (Whole S) (forSteps g start head) := by
  have optional : LocatesTo S stop (fun e? => ∀ e, e? = some e → Whole S e)
      (some <$> withIn true (expression g)) :=
    ((locates_expression hg).withIn true).some
  refine .expect' (by decide) fun s t => .get ?_
  refine .either (fun _ => .nothing nofun rfl) (fun _ => optional t) fun e t _ => ?_
  refine .expect' (by decide) fun s t => .get ?_
  refine .either (fun _ => .nothing nofun rfl) (fun _ => optional t) fun u t _ => ?_
  refine .expect' (by decide) fun s t => .bind (hg.stmt t) fun a t _ => .since ?_
  exact .node trivial rfl (by simp) (by grind)

theorem locatesAt_forStatement (hg : LocatesInner S stop g) :
    LocatesAt S stop t start os (Whole S) (forStatement g start) := by
  refine .expect' (by decide) fun s t => .bind (locates_accept (by decide) t) fun isAwait t _ => ?_
  refine .expect' (by decide) fun s t =>
    .bind ((locates_forHead hg).withIn false t) fun head t _ => .get ?_
  refine .ite (fun h => ?_) fun _ => .ite (fun h => ?_) fun _ =>
    .ite (fun _ => .complain _) fun _ => ?_
  · exact locatesAt_forEach hg (passable_of_at_ (Bool.and_eq_true_iff.1 h).2 (by decide))
      ((locates_expression hg).withIn true) (fun _ _ _ => rfl) (by grind)
  · exact locatesAt_forEach hg (passable_of_atWord (Bool.and_eq_true_iff.1 h).2)
      (hg.assign.withIn true) (fun _ _ _ => rfl) (by grind)
  · exact locatesAt_forSteps hg (by grind)

theorem locatesAt_whileStatement (hg : LocatesInner S stop g) :
    LocatesAt S stop t start os (Whole S) (whileStatement g start) := by
  refine .expect' (by decide) fun s t => .bind (locates_parenthesized hg t) fun e t _ => ?_
  exact .bind (hg.stmt t) fun a t _ => .since <| .node trivial rfl (by simp) (by grind)

theorem locatesAt_doStatement (hg : LocatesInner S stop g) :
    LocatesAt S stop t start os (Whole S) (doStatement g start) := by
  refine .expect' (by decide) fun s t => .bind (hg.stmt t) fun a t _ =>
    .expect' (by decide) fun s t => ?_
  refine .bind (locates_parenthesized hg t) fun e t _ =>
    .bindDiscard (locates_accept (by decide) t) fun _ t => ?_
  exact .since <| .node trivial rfl (by simp) (by grind)

/-! ### Jumps -/

theorem locatesAt_returnStatement (hg : LocatesInner S stop g) :
    LocatesAt S stop t start os (Whole S) (returnStatement g start) := by
  refine .expect' (by decide) fun s t => .get ?_
  refine .either (fun _ => .nothing nofun rfl)
    (fun _ => (locates_expression hg).some t) fun e t _ => ?_
  exact .bind (locates_endStatement t) fun _ t _ => .since <| .node trivial rfl (by simp) (by grind)

theorem locates_jumpLabel : LocatesTo S stop
    (fun n? => ∀ n, n? = some n → Whole S n) jumpLabel := by
  refine fun t => .get <| .either (fun _ => locates_identifier.some t)
    (fun _ => .nothing nofun rfl) fun n t hn => ?_
  exact .bind (locates_endStatement t) fun _ t _ => .ofParts hn nofun (by grind)

theorem locatesAt_throwStatement (hg : LocatesInner S stop g) :
    LocatesAt S stop t start os (Whole S) (throwStatement g start) := by
  refine .expect' (by decide) fun s t => .get <| .check (fun _ => .complain _) fun _ => ?_
  refine .bind (locates_expression hg t) fun e t _ => .bind (locates_endStatement t) fun _ t _ =>
    .since ?_
  exact .node trivial rfl (by simp) (by grind)

/-! ### Blocks with clauses -/

theorem locates_catchParam (hg : LocatesInner S stop g) :
    LocatesTo S stop (fun p? => ∀ p, p? = some p → Whole S p) (catchParam g) :=
  locates_after (by decide) fun t => .bind (locates_pattern hg t) fun p t' hp =>
    .bindDiscard (locates_after (by decide) hg.type t') fun _ _ => .expect' (by decide) fun _ _ =>
      .kept t.current.span hp (by grind)

theorem locatesAt_tryStatement (hg : LocatesInner S stop g) :
    LocatesAt S stop t start os (Whole S) (tryStatement g start) := by
  refine .expect' (by decide) fun s t => .bind (locates_block hg t) fun b t _ => ?_
  refine .bind (locates_after (P := fun _ => True) (by decide) ?_ t) fun caught t _ => ?_
  · refine fun t => .bind (locates_catchParam hg t) fun p t _ =>
      .bind (locates_blockBody hg t) fun h t _ => ?_
    exact .ofParts trivial nofun (by grind)
  refine .bind (locates_after (by decide) (locates_blockBody hg) t) fun final t _ => ?_
  refine .check (fun _ => .complain _) fun _ => .since <| .node trivial rfl (by simp) ?_
  have hcaught : parts (caught.getD (none, .absent)) ⊆ parts caught := by
    cases caught with
    | none => exact List.nil_subset _
    | some caught => exact (parts_some caught).symm ▸ List.Subset.refl _
  have hfinal : parts (final.getD .absent) ⊆ parts final := by
    cases final with
    | none => exact List.nil_subset _
    | some final => exact (parts_some final).symm ▸ List.Subset.refl _
  rw [parts_pair] at hcaught
  grind

theorem locates_caseBody (hg : LocatesInner S stop g) : Locates S stop (caseBody g) :=
  locates_collect (R := fun _ => True) fun t => .get <|
    .ite (fun _ => .nothing trivial rfl) fun _ =>
    .bind (hg.stmt t) fun _ _ _ => .ofParts trivial nofun (by rw [parts_some]; grind)

theorem locates_switchCase (hg : LocatesInner S stop g) (hasDefault : Bool) :
    LocatesTo S stop (fun _ => True) (switchCase g hasDefault) := by
  have rest (e : Option Expr) {t : Tape} {start : Span} {os : List Outline}
      (he : outlineExpr? e ⊆ os) :
      LocatesAt S stop t start os (fun _ => True) (do
        discard <| expect .colon
        return Case.mk e (← caseBody g)) := by
    refine .expect' (by decide) fun s t => .bind (locates_caseBody hg t) fun as t _ => ?_
    exact .ofParts trivial nofun (by rw [parts_case, Case.outline]; grind)
  refine fun t => .get <| .ite (fun h => ?_) fun _ => .ite (fun h => ?_) fun _ => ?_
  · refine .skip (passable_of_at_ h (by decide)) ?_
    exact .bind (((locates_expression hg).withIn true).some _) fun e t _ => rest e (by grind)
  · exact .check (fun _ => .complain _) fun _ =>
      .skip (passable_of_at_ h (by decide)) (rest none (List.nil_subset _))
  · exact .bindSame (.complain _) fun _ _ => False.elim

theorem locates_switchCases (hg : LocatesInner S stop g) : Locates S stop
    (switchCases g) := fun _ =>
  locatesAt_extend (fun found t os _ hos _ => .get <| .ite (fun _ => .nothing nofun rfl) fun _ =>
    .bind (locates_switchCase hg _ t) fun c t _ => .found trivial (by
      rw [parts_append, parts_singleton]
      grind))
    trivial (List.nil_subset _) nofun

theorem locatesAt_switchStatement (hg : LocatesInner S stop g) :
    LocatesAt S stop t start os (Whole S) (switchStatement g start) := by
  refine .expect' (by decide) fun s t => .bind (locates_parenthesized hg t) fun e t _ => ?_
  refine .expect' (by decide) fun s t => .bind (locates_switchCases hg t) fun cs t _ => ?_
  exact .expect' (by decide) fun s t => .since <| .node trivial rfl (by simp) (by grind)

/-! ### All statements -/

theorem locatesAt_otherStatement (hg : LocatesInner S stop g) :
    LocatesAt S stop t start os (Whole S) (otherStatement g start) := by
  refine .get <| .ite (fun _ => ?_) fun _ => .ite (fun _ => ?_) fun _ => ?_
  · refine .bind (locates_declaration hg (locates_item hg) t) fun d t _ => .since ?_
    exact .node trivial rfl (by simp) (by grind)
  · refine .bind (locates_identifier t) fun n t _ => .expect' (by decide) fun s t => ?_
    exact .bind (hg.stmt t) fun a t _ => .since <| .node trivial rfl (by simp) (by grind)
  · refine .bind (locates_expression hg t) fun e t _ => .bind (locates_endStatement t) fun _ t _ =>
      .since ?_
    exact .node trivial rfl (by simp) (by grind)

theorem locates_stmtBody (hg : LocatesInner S stop g) : Locates S stop (stmtBody g) := by
  intro t
  have declared {t : Tape} {start : Span} {os : List Outline} : LocatesAt S stop t start os
      (Whole S) (do
      let d ← varDeclaration g false
      return Stmt.decl (← since start) d) :=
    .bind (locates_varDeclaration hg _ t) fun d t _ => .since <|
      .node trivial rfl (by simp) (by grind)
  refine .get ?_
  dsimp only
  split
  · refine .bind (locates_block hg t) fun b t _ => .since ?_
    exact .node trivial rfl (by simp) (by grind)
  · rename_i h
    exact .skip (passable_of_kind h (by decide)) <| .since <|
      .node trivial rfl (by simp) (List.nil_subset _)
  · exact declared
  · exact declared
  · exact .ite (fun _ => locatesAt_otherStatement hg) fun _ => declared
  · exact locatesAt_ifStatement hg
  · exact locatesAt_forStatement hg
  · exact locatesAt_whileStatement hg
  · exact locatesAt_doStatement hg
  · exact locatesAt_returnStatement hg
  · rename_i h
    refine .skip (passable_of_kind h (by decide)) <| .bind (locates_jumpLabel _) fun n t _ =>
      .since ?_
    exact .node trivial rfl (by simp) (by grind)
  · rename_i h
    refine .skip (passable_of_kind h (by decide)) <| .bind (locates_jumpLabel _) fun n t _ =>
      .since ?_
    exact .node trivial rfl (by simp) (by grind)
  · exact locatesAt_throwStatement hg
  · exact locatesAt_tryStatement hg
  · exact locatesAt_switchStatement hg
  · rename_i h
    refine .skip (passable_of_kind h (by decide)) <| .bind (locates_endStatement _) fun _ t _ =>
      .since ?_
    exact .node trivial rfl (by simp) (List.nil_subset _)
  · exact .complain _
  · refine .ite (fun _ => .bind (locates_importDecl hg t) fun d t _ => .since ?_) fun _ =>
      locatesAt_otherStatement hg
    exact .node trivial rfl (by simp) (by grind)
  · exact .complain _
  · exact locatesAt_otherStatement hg

end TypeStrip.Grammar
