import TypeStrip.Grammar.Expression
import TypeStrip.Proofs.Strings.Types

/-! Expressions are read alike however strings are worded. -/
namespace TypeStrip.Grammar
open TypeStrip.Token (Kind)
open Reworded

variable {σ : String → String} {t : Tape} {g : Inner}

/-! ### Operators -/

/-- What may be assigned to is no matter of texts, by induction on what is inside it. -/
@[simp] theorem isTarget_reword (op : AssignOp) (e : Expr) :
    isTarget op (e.reword σ) = isTarget op e := by
  induction e using isTarget.induct with
  | case4 s e ih => exact ih
  | case5 s e type ih => exact ih
  | case6 s e ih => exact ih
  | case9 e _ _ _ hparen hcast hnonNull =>
    cases e with
    | paren s e => exact (hparen s e rfl).elim
    | cast s e type => exact (hcast s e type rfl).elim
    | nonNull s e => exact (hnonNull s e rfl).elim
    | _ => rfl
  | _ => rfl

@[simp] theorem bindingPower_reword (c : Cursor) (allowIn : Bool) :
    bindingPower (c.reword σ) allowIn = bindingPower c allowIn := by
  by_cases h : c.current.kind = .string
  · simp [bindingPower, h]
  · rw [bindingPower, Cursor.current_reword, Token.reword_of_ne_string h, bindingPower]

/-! ### Parts shared by several expressions -/

section
variable (hg : CarriesInner σ g)
include hg

theorem carries_expression : Carries σ (expression g) (expression g) := by
  refine .bind hg.assign fun e => .get fun c => .ite (.pure rfl) ?_
  refine .bind (.collect (.after _ hg.assign)) fun es => ?_
  rw [show (reword σ e).span = e.span from e.span_reword]
  refine .bind (carries_since _) fun _ => .pure ?_
  simp [reword]

theorem carries_parenthesized : Carries σ (parenthesized g) (parenthesized g) :=
  .bind (.discard (carries_expect _)) fun _ => .bind (.withIn _ (carries_expression hg)) fun _ =>
    .bind (.discard (carries_expect _)) fun _ => .pure rfl

theorem carries_spreadable : Carries σ (spreadable g) (spreadable g) := by
  refine .bind carries_here fun start => .bind (carries_accept _) fun _ => .ite ?_ hg.assign
  refine .bind hg.assign fun e => .pure ?_
  simp [reword]

theorem carries_arguments : Carries σ (arguments g) (arguments g) :=
  .bind (.discard (carries_expect _)) fun _ =>
    .bind (.withIn _ (.commaSeparated _ (carries_spreadable hg))) fun _ =>
      .bind (.discard (carries_expect _)) fun _ => .pure rfl

/-! ### Primary expressions -/

theorem carries_arrayLiteral : Carries σ (arrayLiteral g) (arrayLiteral g) := by
  refine .bind (.discard (carries_expect _)) fun _ => ?_
  refine .bind (.withIn _ (.collectUntil _ ?_)) fun _ => ?_
  · exact .bind (carries_accept _) fun _ => .ite (.pure rfl) (.withComma _ (carries_spreadable hg))
  · exact .bind (.discard (carries_expect _)) fun _ => .pure rfl

theorem carries_keyedProperty : Carries σ (keyedProperty g) (keyedProperty g) := by
  refine .bind carries_methodWords fun words => .bind (carries_key hg) fun k => ?_
  refine .get fun c => .ite ?_ (.when (carries_complain _) ?_)
  · exact .bind (carries_functionRest hg ⟨none, _, _, _⟩ _) fun f => .pure rfl
  · refine .bind (carries_accept _) fun _ => .ite (.bind hg.assign fun e => .pure rfl) ?_
    cases k with
    | ident name =>
      refine .bind (.after _ hg.assign) fun e => ?_
      cases e with
      | none => exact .pure rfl
      | some e =>
        exact .pure (by simp [reword, Name.reword])
    | _ => exact carries_complain _

theorem carries_objectLiteral : Carries σ (objectLiteral g) (objectLiteral g) := by
  refine .bind (.discard (carries_expect _)) fun _ => ?_
  refine .bind (.withIn _ (.commaSeparated _ ?_)) fun _ => ?_
  · refine .bind (carries_accept _) fun _ => .ite ?_ (carries_keyedProperty hg)
    exact .bind hg.assign fun e => .pure rfl
  · exact .bind (.discard (carries_expect _)) fun _ => .pure rfl

end

/-- Parsers that do not move, one after the other, do not move. -/
theorem mapM_unmoved {α β : Type} {p : α → Parser β}
    (hp : ∀ a, (∃ b, p a = pure b) ∨ ∃ e, p a = throw e) (as : List α) :
    (∃ bs, as.mapM p = pure bs) ∨ ∃ e, as.mapM p = throw e := by
  induction as with
  | nil => exact .inl ⟨[], rfl⟩
  | cons a as ih =>
    rw [List.mapM_cons]
    rcases hp a with ⟨b, hb⟩ | ⟨e, he⟩
    · rcases ih with ⟨bs, hbs⟩ | ⟨e, he⟩
      · exact .inl ⟨b :: bs, by rw [hb, hbs, pure_bind, pure_bind]⟩
      · exact .inr ⟨e, by rw [hb, he, pure_bind]; rfl⟩
    · exact .inr ⟨e, by rw [he]; rfl⟩

/-- The strings inside a template are no tokens of the text around it. -/
theorem carriesAt_templateLiteral (hk : t.current.kind = .template) :
    CarriesAt σ t (templateLiteral g) (templateLiteral g) := by
  have unmoved {t : Tape} {s : Span} {texts : List String} (subs : List Template.Substitution)
      {p : Template.Substitution → Parser Expr}
      (hp : ∀ s, (∃ e, p s = pure e) ∨ ∃ e, p s = throw e) :
      CarriesAt σ t (do return Expr.template s texts (← subs.mapM p))
        (do return Expr.template s texts (← subs.mapM p)) := by
    rcases mapM_unmoved hp subs with ⟨es, h⟩ | ⟨e, h⟩
    · rw [h]
      exact .pure rfl
    · rw [h]
      exact Carries.throw (α := Expr) _
  refine .take (by rw [hk]; decide) ?_
  rw [Token.reword_of_ne_string (by rw [hk]; decide)]
  split
  · exact Carries.throw _
  · refine unmoved _ fun s => ?_
    split
    · exact .inl ⟨_, rfl⟩
    · exact .inr ⟨_, rfl⟩

theorem carries_literal {span : Span} {value value' : Literal} (h : value' = value.reword σ) :
    Carries σ (literal span value) (literal span value') := by
  rw [h]
  exact .bind carries_skip fun _ => .pure rfl

section
variable (hg : CarriesInner σ g)
include hg

theorem carries_primary {heritage : Parser Expr} (hh : Carries σ heritage heritage) :
    Carries σ (primary g heritage) (primary g heritage) := by
  have word {e e' : Expr} (h : e' = e.reword σ) :
      Carries σ (do skip; return e) (do skip; return e') :=
    .bind carries_skip fun _ => .pure h
  have function (start : Span) (isAsync : Bool) : Carries σ
      (do let f ← function g isAsync false false; return Expr.function (← since start) f)
      (do let f ← function g isAsync false false; return Expr.function (← since start) f) :=
    .bind (carries_function hg _ _ _) fun f => .bind (carries_since _) fun _ => .pure rfl
  refine fun t => .fits fun ht => .get ?_
  by_cases hs : t.cursor.current.kind = .string
  · simp only [Cursor.current_reword, Token.kind_reword, hs]
    exact carries_literal (congrArg Literal.string (ht.value_reword (.inr hs))) t
  have hident (hk : t.cursor.current.kind.givesText = true) :
      Expr.ident t.current.span t.current.value =
        (Expr.ident t.current.span t.current.value).reword σ :=
    (congrArg (Expr.ident _) (ht.current_value hk)).symm
  rw [Cursor.current_reword_of_ne_string σ _ hs]
  simp only [Cursor.sees_reword, Cursor.sameLine_reword]
  split
  · exact carries_literal rfl t
  · exact carries_literal rfl t
  · rename_i hk
    exact absurd hk hs
  · exact carries_literal rfl t
  · exact carries_literal rfl t
  · exact carries_literal rfl t
  · rename_i hk
    exact carriesAt_templateLiteral hk
  · exact word rfl t
  · exact word rfl t
  · rename_i hk
    exact .bind (carries_skip t) fun _ => .ite (function _ _) (.pure (hident (by rw [hk]; rfl)))
  · exact function _ _ t
  · refine .bind (carries_classRest hg hh _ _ t) fun c => ?_
    exact .bind (carries_since _) fun _ => .pure rfl
  · rename_i hk
    exact .ite (fun _ => word (hident (by rw [hk]; decide)) t) fun _ => carries_complainFound _ t
  · exact .bind (carries_parenthesized hg t) fun e => .bind (carries_since _) fun _ => .pure rfl
  · refine .bind (carries_arrayLiteral hg t) fun es => .bind (carries_since _) fun _ => .pure ?_
    simp [reword]
  · refine .bind (carries_objectLiteral hg t) fun ps => .bind (carries_since _) fun _ => .pure ?_
    simp [reword]
  · exact carries_complain _ t
  · exact carries_complain _ t
  · exact carries_complainFound _ t

/-! ### Members and calls -/

theorem carries_indexed : Carries σ (indexed g) (indexed g) :=
  .bind (.discard (carries_expect _)) fun _ => .bind (.withIn _ (carries_expression hg)) fun _ =>
    .bind (.discard (carries_expect _)) fun _ => .pure rfl

theorem carries_optionalLink (start : Span) (e : Expr) :
    Carries σ (optionalLink g start e) (optionalLink g start (e.reword σ)) := by
  refine .get fun c => ?_
  simp only [Cursor.current_reword, Token.kind_reword]
  split
  · refine .bind (carries_arguments hg) fun args => .bind (carries_since _) fun _ => .pure ?_
    simp [reword]
  · refine .bind (carries_typeArguments hg) fun ts => .bind (carries_arguments hg) fun args => ?_
    refine .bind (carries_since _) fun _ => .pure ?_
    simp [reword]
  · exact .bind (carries_indexed hg) fun i => .bind (carries_since _) fun _ => .pure rfl
  · exact .bind carries_anyName fun _ => .bind (carries_since _) fun _ => .pure rfl

theorem carries_callTypeArguments : Carries σ (callTypeArguments g) (callTypeArguments g) :=
  .bind (carries_typeArguments hg) fun _ => .get fun _ => .when (carries_complain _) (.pure rfl)

theorem carries_link (start : Span) (allowCall : Bool) (e : Expr) :
    Carries σ (link g start allowCall e) (link g start allowCall (e.reword σ)) := by
  have call (ts : List TypeExpr) : Carries σ
      (do let args ← arguments g; return some (Expr.call (← since start) e ts args))
      (do
        let args ← arguments g
        return some (Expr.call (← since start) (e.reword σ) (reword σ ts) args)) := by
    refine .bind (carries_arguments hg) fun args => .bind (carries_since _) fun _ => .pure ?_
    simp [reword]
  refine .get fun c => ?_
  simp only [Cursor.current_reword, Token.kind_reword]
  split
  · exact .bind carries_skip fun _ => .bind carries_anyName fun _ => .pure rfl
  · exact .bind carries_skip fun _ => .bind (carries_optionalLink hg _ e) fun e => .pure rfl
  · exact .bind (carries_indexed hg) fun i => .bind (carries_since _) fun _ => .pure rfl
  · exact .ite (.pure rfl) (call [])
  · refine .ite (.pure rfl) (.bind (.attempt (carries_callTypeArguments hg)) fun ts => ?_)
    cases ts with
    | some ts => exact call ts
    | none => exact .pure rfl
  · exact .ite (.pure rfl) (.bind carries_skip fun _ => .bind (carries_since _) fun _ => .pure rfl)
  · exact carries_complain _
  · exact .pure rfl

theorem carries_newExpression {callee : Parser Expr} (hc : Carries σ callee callee) :
    Carries σ (newExpression g callee) (newExpression g callee) := by
  refine .bind carries_here fun start => .bind (.discard (carries_expect _)) fun _ => ?_
  refine .get fun c => .when (carries_complain _) (.bind hc fun e => .get fun c => ?_)
  refine .eitherStep (.attempt (carries_typeArguments hg))
    (fun ts => .pure (by cases ts <;> rfl)) (.pure rfl) fun ts => .get fun c => ?_
  refine .either (carries_arguments hg) (.pure rfl) fun args => ?_
  refine .bind (carries_since _) fun _ => .pure ?_
  simp [reword]

theorem carries_leftHandSideUpTo (fuel : Nat) (allowCall : Bool) :
    Carries σ (leftHandSideUpTo g fuel allowCall) (leftHandSideUpTo g fuel allowCall) := by
  induction fuel generalizing allowCall with
  | zero => exact carries_complain _
  | succ fuel ih =>
    refine .get fun c => .either (carries_newExpression hg (ih _)) (carries_primary hg (ih _)) ?_
    exact fun e => .extend (carries_link hg _ _) e

theorem carries_leftHandSide : Carries σ (leftHandSide g) (leftHandSide g) := by
  refine .get fun c => ?_
  rw [Cursor.remaining_reword]
  exact carries_leftHandSideUpTo hg _ _

/-! ### Operators and operands -/

theorem carries_postfixExpr : Carries σ (postfixExpr g) (postfixExpr g) := by
  refine .bind (carries_leftHandSide hg) fun e => .get fun c => ?_
  simp only [Cursor.current_reword, Token.kind_reword, Token.newlineBefore_reword,
    show reword σ e = e.reword σ from rfl, isTarget_reword, Expr.span_reword]
  split
  · refine .ite (.pure rfl) (.otherwise .throw (.bind carries_skip fun _ => ?_))
    exact .bind (carries_since _) fun _ => .pure rfl
  · exact .pure rfl

theorem carries_unaryBody : Carries σ (unaryBody g) (unaryBody g) := by
  refine .get fun c => ?_
  simp only [Cursor.current_reword, Token.kind_reword, Token.span_reword]
  split
  · refine .bind carries_skip fun _ => .bind hg.unary fun e => ?_
    simp only [show reword σ e = e.reword σ from rfl, isTarget_reword, Expr.span_reword]
    exact .when .throw (.pure rfl)
  · refine .bind (carries_accept _) fun _ => .ite ?_ (.bind (carries_accept _) fun _ => .ite ?_ ?_)
    · refine .bind hg.unary fun e => .pure ?_
      simp [reword]
    · refine .bind hg.type fun type => .bind carries_closeAngle fun _ => .bind hg.unary fun e => ?_
      exact .pure (by simp [reword])
    · exact carries_postfixExpr hg

theorem carries_binaryStep {operand : Nat → Parser Expr}
    (ho : ∀ power, Carries σ (operand power) (operand power)) (power : Nat) (left : Expr) :
    Carries σ (binaryStep g operand power left) (binaryStep g operand power (left.reword σ)) := by
  refine .get fun c => .inAllowed fun allowed => ?_
  rw [bindingPower_reword]
  by_cases hs : c.current.kind = .string
  · simp only [bindingPower, hs]
    exact .pure rfl
  rw [Cursor.at_reword, Cursor.current_reword_of_ne_string σ _ hs, Expr.span_reword]
  refine .ite (.pure rfl) (.ite ?_ ?_)
  · refine .bind carries_skip fun _ => .bind hg.type fun type => .pure ?_
    split <;> simp [reword]
  · split
    · exact carries_complain _
    · refine .bind carries_skip fun _ => .bind (ho _) fun right => .pure ?_
      simp [reword]

theorem carries_binaryUpTo (fuel power : Nat) :
    Carries σ (binaryUpTo g fuel power) (binaryUpTo g fuel power) := by
  induction fuel generalizing power with
  | zero => exact carries_complain _
  | succ fuel ih => exact .bind hg.unary fun e => .extend (carries_binaryStep hg ih power) e

theorem carries_conditional : Carries σ (conditional g) (conditional g) := by
  refine .get fun c => ?_
  rw [Cursor.remaining_reword]
  refine .bind (carries_binaryUpTo hg _ _) fun test => ?_
  refine .bind (carries_accept _) fun _ => .ite ?_ (.pure rfl)
  refine .bind (.withIn _ hg.assign) fun yes => .bind (.discard (carries_expect _)) fun _ => ?_
  exact .bind hg.assign fun no => .pure (by simp [reword])

/-! ### Arrows, `yield` and assignments -/

theorem carries_arrowHead : Carries σ (arrowHead g) (arrowHead g) := by
  refine .bind (carries_optionalTypeParams hg) fun ts => .bind (carries_params hg) fun ps => ?_
  refine .bind (carries_returnType hg) fun ret => .get fun c => .when (carries_complain _) ?_
  exact .bind carries_skip fun _ => .pure rfl

theorem carries_arrowBody (start : Span) (isAsync : Bool)
    (head : List TypeParam × List Param × Option TypeExpr) :
    Carries σ (arrowBody g start isAsync head) (arrowBody g start isAsync (reword σ head)) := by
  refine .get fun c => .either (carries_blockBody hg) (.map hg.assign fun _ => rfl) fun body => ?_
  refine .bind (carries_since _) fun _ => .pure ?_
  simp [reword]

theorem carries_arrow? : Carries σ (arrow? g) (arrow? g) := by
  refine .get fun c => ?_
  simp only [Cursor.atWord_reword, Cursor.sameLine_reword, Cursor.seesAny_reword,
    Cursor.sees_reword, Cursor.current_reword, Token.span_reword]
  refine .ite (.when carries_skip ?_) (.ite (.pure rfl) ?_)
  · refine .bind carries_identifier fun name => .bind (.discard (carries_expect _)) fun _ => ?_
    exact .bind (carries_arrowBody hg _ _ ([], [_], none)) fun _ => .pure rfl
  · refine .bind (.attempt (.when carries_skip (carries_arrowHead hg))) fun head => ?_
    cases head with
    | some head => exact .bind (carries_arrowBody hg _ _ head) fun e => .pure rfl
    | none => exact .pure rfl

theorem carries_yieldExpression : Carries σ (yieldExpression g) (yieldExpression g) := by
  refine .bind carries_here fun start => .bind (.discard (carries_expect _)) fun _ => ?_
  refine .bind (carries_accept _) fun _ => .get fun c => ?_
  refine .either (.pure rfl) (.map hg.assign fun _ => rfl) fun argument => ?_
  refine .bind (carries_since _) fun _ => .pure ?_
  simp [reword]

theorem carries_assignBody : Carries σ (assignBody g) (assignBody g) := by
  refine .bind (carries_arrow? hg) fun e => ?_
  cases e with
  | some e => exact .pure rfl
  | none =>
    refine .get fun c => .ite (carries_yieldExpression hg) ?_
    refine .bind (carries_conditional hg) fun target => .get fun c => ?_
    simp only [Cursor.current_reword, Token.kind_reword,
      show reword σ target = target.reword σ from rfl, isTarget_reword, Expr.span_reword]
    split
    · refine .otherwise .throw (.bind carries_skip fun _ => .bind hg.assign fun value => .pure ?_)
      simp [reword]
    · exact .pure rfl

end

end TypeStrip.Grammar
