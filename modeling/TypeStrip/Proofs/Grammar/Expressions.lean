import TypeStrip.Grammar.Expression
import TypeStrip.Proofs.Grammar.Classes

/-! Expressions are read soundly. -/
namespace TypeStrip.Grammar
open TypeStrip.Token (Kind)
open Site

variable {I : Cursor → Prop} [Kept I] {g : Inner}

/-- An expression of expressions is sound if they are. -/
private theorem sound_ofExprs {e : Expr} {es : List Expr} (hn : (Site.expr e).IsSound)
    (hp : ofExprParts e = ofExprs es) (h : Sound es) : Sound e :=
  Expr.sound hn (hp ▸ allDeep_ofExprs.2 h)

private theorem sound_pair {a b : Expr} (ha : Sound a) (hb : Sound b) : Sound [a, b] :=
  sound_cons.2 ⟨ha, sound_cons.2 ⟨hb, sound_nil⟩⟩

private theorem sound_single {a : Expr} (ha : Sound a) : Sound [a] :=
  sound_cons.2 ⟨ha, sound_nil⟩

/-- An expression without parts is sound. -/
private theorem sound_leaf {e : Expr} (hn : (Site.expr e).IsSound) (hp : ofExprParts e = []) :
    Sound e :=
  Expr.sound hn (hp ▸ allDeep_nil)

/-! ### Parts shared by several expressions -/

theorem keeps_expression (hg : KeepsInner I g) :
    Keeps I (expression g) := by
  refine .bind hg.assign fun e he => .get fun c => .ite (.pure he) ?_
  refine .bind (keeps_collect (keeps_after _ hg.assign)) fun es hes => ?_
  exact .bind (keeps_since _) fun _ _ => .pure (sound_ofExprs trivial rfl (sound_cons.2 ⟨he, hes⟩))

theorem keeps_parenthesized (hg : KeepsInner I g) : Keeps I (parenthesized g) :=
  .bind (.discard (keeps_expect _)) fun _ _ => .bind (.withIn (keeps_expression hg)) fun _ he =>
    .bind (.discard (keeps_expect _)) fun _ _ => .pure he

theorem keeps_spreadable (hg : KeepsInner I g) : Keeps I (spreadable g) := by
  refine .bind keeps_here fun start _ => .bind (keeps_accept _) fun _ _ => .ite ?_ hg.assign
  exact .bind hg.assign fun e he => .pure (sound_ofExprs trivial rfl (sound_single he))

theorem keeps_arguments (hg : KeepsInner I g) : Keeps I (arguments g) :=
  .bind (.discard (keeps_expect _)) fun _ _ =>
    .bind (.withIn (keeps_commaSeparated _ (keeps_spreadable hg))) fun _ h =>
      .bind (.discard (keeps_expect _)) fun _ _ => .pure h

/-! ### Primary expressions -/

theorem keeps_arrayLiteral (hg : KeepsInner I g) : Keeps I (arrayLiteral g) := by
  refine .bind (.discard (keeps_expect _)) fun _ _ => ?_
  refine .bind (.withIn (keeps_collectUntil _ ?_)) fun es hes => ?_
  · refine .bind (keeps_accept _) fun _ _ => .ite (.pure (sound_leaf trivial rfl)) ?_
    refine .bind (keeps_spreadable hg) fun e he => .get fun c => ?_
    exact .otherwise (.discard (keeps_expect _)) (.pure he)
  · exact .bind (.discard (keeps_expect _)) fun _ _ => .pure hes

theorem keeps_keyedProperty (hg : KeepsInner I g) : Keeps I (keyedProperty g) := by
  refine .bind keeps_methodWords fun _ _ => .bind (keeps_key hg) fun k hk => ?_
  refine .get fun c => .ite ?_ (.when (keeps_complain _) ?_)
  · refine .bind (keeps_functionRest hg _ _) fun f hf => .pure ⟨trivial, ?_⟩
    exact allDeep_cons.2 ⟨hk, allDeep_cons.2 ⟨deep_function.2 hf, allDeep_nil⟩⟩
  · refine .bind (keeps_accept _) fun _ _ => .ite ?_ ?_
    · refine .bind hg.assign fun e he => .pure ⟨trivial, ?_⟩
      exact allDeep_cons.2 ⟨hk, allDeep_ofExprs.2 (sound_single he)⟩
    · split
      · rename_i name
        have hr : Sound (Expr.ident name.span name.text) := sound_leaf trivial rfl
        refine .bind (keeps_after _ hg.assign) fun e he => ?_
        cases e with
        | none =>
          exact .pure ⟨beq_self_eq_true name.text,
            allDeep_cons.2 ⟨hk, allDeep_ofExprs.2 (sound_single hr)⟩⟩
        | some e =>
          have ha : Sound (Expr.assign (name.span.merge e.span) (.ident name.span name.text)
              .assign e) :=
            sound_ofExprs trivial rfl (sound_pair hr (sound_some.1 he))
          exact .pure ⟨beq_self_eq_true name.text,
            allDeep_cons.2 ⟨hk, allDeep_ofExprs.2 (sound_single ha)⟩⟩
      · exact keeps_complain _

theorem keeps_objectLiteral (hg : KeepsInner I g) : Keeps I (objectLiteral g) := by
  refine .bind (.discard (keeps_expect _)) fun _ _ => ?_
  refine .bind (.withIn (keeps_commaSeparated _ ?_)) fun ps hps => ?_
  · refine .bind (keeps_accept _) fun _ _ => .ite ?_ (keeps_keyedProperty hg)
    exact .bind hg.assign fun e he => .pure ⟨trivial, he⟩
  · exact .bind (.discard (keeps_expect _)) fun _ _ => .pure hps

omit [Kept I] in
/-- A parser for each value of a list. -/
theorem keeps_mapM {α β : Type} [Read β] {f : α → Parser β} (hf : ∀ a, Keeps I (f a))
    (as : List α) : Keeps I (as.mapM f) := by
  induction as with
  | nil => exact .pure sound_nil
  | cons a as ih =>
    rw [List.mapM_cons]
    exact .bind (hf a) fun b hb => .bind ih fun bs hbs => .pure (sound_cons.2 ⟨hb, hbs⟩)

theorem keeps_templateLiteral (hg : KeepsInner I g) : Keeps I (templateLiteral g) := by
  refine .bind keeps_take fun t _ => ?_
  split
  · exact .throw
  · refine .bind (keeps_mapM (fun s => ?_) _) fun es hes => .pure (sound_ofExprs trivial rfl hes)
    split
    · exact .pure (hg.substitution _ _ (by assumption))
    · exact .throw

theorem keeps_literal (span : Span) (value : Literal) : Keeps I (literal span value) :=
  .bind keeps_skip fun _ _ => .pure (sound_leaf trivial rfl)

theorem keeps_primary (hg : KeepsInner I g) {heritage : Parser Expr} (hh : Keeps I heritage) :
    Keeps I (primary g heritage) := by
  have word (e : Expr) (he : Sound e) : Keeps I (do skip; return e) :=
    .bind keeps_skip fun _ _ => .pure he
  have function (start : Span) (isAsync : Bool) : Keeps I (do
      let f ← function g isAsync false false
      return Expr.function (← since start) f) := by
    refine .bind (keeps_function hg _ _ _) fun f hf => .bind (keeps_since _) fun _ _ => .pure ?_
    exact Expr.sound trivial (allDeep_cons.2 ⟨deep_function.2 hf, allDeep_nil⟩)
  refine .get fun c => ?_
  dsimp only
  split
  · exact keeps_literal _ _
  · exact keeps_literal _ _
  · exact keeps_literal _ _
  · exact keeps_literal _ _
  · exact keeps_literal _ _
  · exact keeps_literal _ _
  · exact keeps_templateLiteral hg
  · exact word _ (sound_leaf trivial rfl)
  · exact word _ (sound_leaf trivial rfl)
  · refine .bind keeps_skip fun _ _ => .ite (function _ _) (.pure (sound_leaf trivial rfl))
  · exact function _ _
  · refine .bind (keeps_classRest hg hh _ _) fun c hc => .bind (keeps_since _) fun _ _ => .pure ?_
    exact Expr.sound trivial (allDeep_cons.2 ⟨hc, allDeep_nil⟩)
  · exact .ite (word _ (sound_leaf trivial rfl)) (keeps_complainFound _)
  · refine .bind (keeps_parenthesized hg) fun e he => .bind (keeps_since _) fun _ _ => .pure ?_
    exact sound_ofExprs trivial rfl (sound_single he)
  · refine .bind (keeps_arrayLiteral hg) fun es hes => .bind (keeps_since _) fun _ _ => .pure ?_
    exact sound_ofExprs trivial rfl hes
  · refine .bind (keeps_objectLiteral hg) fun ps hps => .bind (keeps_since _) fun _ _ => .pure ?_
    exact Expr.sound (fun p hp => (hps p hp).1) (allDeep_flatMap.2 fun p hp => (hps p hp).2)
  · exact keeps_complain _
  · exact keeps_complain _
  · exact keeps_complainFound _

/-! ### Members and calls -/

theorem keeps_indexed (hg : KeepsInner I g) : Keeps I (indexed g) :=
  .bind (.discard (keeps_expect _)) fun _ _ => .bind (.withIn (keeps_expression hg)) fun _ he =>
    .bind (.discard (keeps_expect _)) fun _ _ => .pure he

theorem keeps_optionalLink (hg : KeepsInner I g) (start : Span) {e : Expr} (he : Sound e) :
    Keeps I (optionalLink g start e) := by
  refine .get fun c => ?_
  split
  · refine .bind (keeps_arguments hg) fun args ha => .bind (keeps_since _) fun _ _ => .pure ?_
    exact sound_ofExprs trivial rfl (sound_cons.2 ⟨he, ha⟩)
  · refine .bind (keeps_typeArguments hg) fun _ _ => .bind (keeps_arguments hg) fun args ha => ?_
    refine .bind (keeps_since _) fun _ _ => .pure ?_
    exact sound_ofExprs trivial rfl (sound_cons.2 ⟨he, ha⟩)
  · refine .bind (keeps_indexed hg) fun i hi => .bind (keeps_since _) fun _ _ => .pure ?_
    exact sound_ofExprs trivial rfl (sound_pair he hi)
  · refine .bind keeps_anyName fun _ _ => .bind (keeps_since _) fun _ _ => .pure ?_
    exact sound_ofExprs trivial rfl (sound_single he)

theorem keeps_callTypeArguments (hg : KeepsInner I g) : Keeps I (callTypeArguments g) :=
  .bind (keeps_typeArguments hg) fun _ h => .get fun _ => .when (keeps_complain _) (.pure h)

theorem keeps_link (hg : KeepsInner I g) (start : Span) (allowCall : Bool) {e : Expr}
    (he : Sound e) : Keeps I (link g start allowCall e) := by
  have call (ts : List TypeExpr) : Keeps I (do
      let args ← arguments g
      return some (Expr.call (← since start) e ts args)) := by
    refine .bind (keeps_arguments hg) fun args ha => .bind (keeps_since _) fun _ _ => ?_
    exact .pure (sound_some.2 (sound_ofExprs trivial rfl (sound_cons.2 ⟨he, ha⟩)))
  refine .get fun c => ?_
  split
  · refine .bind keeps_skip fun _ _ => .bind keeps_anyName fun _ _ => ?_
    exact .pure (sound_some.2 (sound_ofExprs trivial rfl (sound_single he)))
  · refine .bind keeps_skip fun _ _ => .bind (keeps_optionalLink hg _ he) fun e he => ?_
    exact .pure (sound_some.2 he)
  · refine .bind (keeps_indexed hg) fun i hi => .bind (keeps_since _) fun _ _ => ?_
    exact .pure (sound_some.2 (sound_ofExprs trivial rfl (sound_pair he hi)))
  · exact .ite (.pure sound_none) (call _)
  · refine .ite (.pure sound_none) (.bind (.attempt (keeps_callTypeArguments hg)) fun ts _ => ?_)
    cases ts with
    | some ts => exact call ts
    | none => exact .pure sound_none
  · refine .ite (.pure sound_none) (.bind keeps_skip fun _ _ => .bind (keeps_since _) fun _ _ => ?_)
    exact .pure (sound_some.2 (sound_ofExprs trivial rfl (sound_single he)))
  · exact keeps_complain _
  · exact .pure sound_none

theorem keeps_newExpression (hg : KeepsInner I g) {callee : Parser Expr} (hc : Keeps I callee) :
    Keeps I (newExpression g callee) := by
  refine .bind keeps_here fun start _ => .bind (.discard (keeps_expect _)) fun _ _ => ?_
  refine .get fun c => .when (keeps_complain _) (.bind hc fun e he => .get fun c => ?_)
  refine .eitherStep (.attempt (keeps_typeArguments hg)) (fun _ => .pure fun _ _ => trivial)
    (.pure sound_nil) fun ts _ => .get fun c => ?_
  refine .either (keeps_arguments hg) (.pure sound_nil) fun args ha => ?_
  refine .bind (keeps_since _) fun _ _ => .pure ?_
  exact sound_ofExprs trivial rfl (sound_cons.2 ⟨he, ha⟩)

theorem keeps_leftHandSideUpTo (hg : KeepsInner I g) (fuel : Nat) (allowCall : Bool) :
    Keeps I (leftHandSideUpTo g fuel allowCall) := by
  induction fuel generalizing allowCall with
  | zero => exact keeps_complain _
  | succ fuel ih =>
    refine .get fun c => .either (keeps_newExpression hg (ih _)) (keeps_primary hg (ih _)) ?_
    exact fun e he => keeps_extend (fun e he => keeps_link hg _ _ he) e he

theorem keeps_leftHandSide (hg : KeepsInner I g) : Keeps I (leftHandSide g) :=
  .get fun _ => keeps_leftHandSideUpTo hg _ _

/-! ### Operators and operands -/

theorem keeps_postfixExpr (hg : KeepsInner I g) : Keeps I (postfixExpr g) := by
  refine .bind (keeps_leftHandSide hg) fun e he => .get fun c => ?_
  dsimp only
  split
  · refine .ite (.pure he) (.otherwise .throw (.bind keeps_skip fun _ _ => ?_))
    refine .bind (keeps_since _) fun _ _ => .pure (sound_ofExprs trivial rfl (sound_single he))
  · exact .pure he

theorem keeps_unaryBody (hg : KeepsInner I g) : Keeps I (unaryBody g) := by
  refine .get fun c => ?_
  dsimp only
  split
  · refine .bind keeps_skip fun _ _ => .bind hg.unary fun e he => .when .throw ?_
    exact .pure (sound_ofExprs trivial rfl (sound_single he))
  · refine .bind (keeps_accept _) fun _ _ => .ite ?_ (.bind (keeps_accept _) fun _ _ => .ite ?_ ?_)
    · exact .bind hg.unary fun e he => .pure (sound_ofExprs trivial rfl (sound_single he))
    · refine .bind hg.type fun _ _ => .bind keeps_closeAngle fun _ _ => .bind hg.unary fun e he => ?_
      exact .pure (sound_ofExprs trivial rfl (sound_single he))
    · exact keeps_postfixExpr hg

theorem keeps_binaryUpTo (hg : KeepsInner I g) (fuel power : Nat) :
    Keeps I (binaryUpTo g fuel power) := by
  induction fuel generalizing power with
  | zero => exact keeps_complain _
  | succ fuel ih =>
    refine .bind hg.unary fun e he => keeps_extend (fun left hl => .get fun c => ?_) e he
    refine .bind keeps_inAllowed fun _ _ => ?_
    refine .ite (.pure sound_none) (.ite ?_ ?_)
    · refine .bind keeps_skip fun _ _ => .bind hg.type fun _ _ => .pure (sound_some.2 ?_)
      split
      · exact sound_ofExprs trivial rfl (sound_single hl)
      · exact sound_ofExprs trivial rfl (sound_single hl)
    · split
      · exact keeps_complain _
      · refine .bind keeps_skip fun _ _ => .bind (ih _) fun right hr => .pure (sound_some.2 ?_)
        exact sound_ofExprs trivial rfl (sound_pair hl hr)

theorem keeps_conditional (hg : KeepsInner I g) :
    Keeps I (conditional g) := by
  refine .get fun c => .bind (keeps_binaryUpTo hg _ _) fun test ht => ?_
  refine .bind (keeps_accept _) fun _ _ => .ite ?_ (.pure ht)
  refine .bind (.withIn hg.assign) fun yes hy => .bind (.discard (keeps_expect _)) fun _ _ => ?_
  refine .bind hg.assign fun no hn => .pure ?_
  exact sound_ofExprs trivial rfl (sound_cons.2 ⟨ht, sound_pair hy hn⟩)

/-! ### Arrows, `yield` and assignments -/

theorem keeps_arrowHead (hg : KeepsInner I g) : Keeps I (arrowHead g) := by
  refine .bind (keeps_optionalTypeParams hg) fun ts hts => .bind (keeps_params hg) fun ps hps => ?_
  refine .bind (keeps_returnType hg) fun ret hr => .get fun c => .when (keeps_complain _) ?_
  exact .bind keeps_skip fun _ _ => .pure ⟨hts, hps, hr⟩

theorem keeps_arrowBody (hg : KeepsInner I g) (start : Span) (isAsync : Bool)
    {head : List TypeParam × List Param × Option TypeExpr} (hh : Sound head) :
    Keeps I (arrowBody g start isAsync head) := by
  refine .get fun c => .either (keeps_blockBody hg) (.map hg.assign fun _ he => he) ?_
  refine fun body hb => .bind (keeps_since _) fun _ _ => .pure ?_
  exact Expr.sound trivial (allDeep_cons.2 ⟨deep_arrow.2 (sound_func.2 ⟨hh.2.1, hb⟩), allDeep_nil⟩)

theorem keeps_arrow? (hg : KeepsInner I g) : Keeps I (arrow? g) := by
  refine .get fun c => .ite (.when keeps_skip ?_) (.ite (.pure sound_none) ?_)
  · refine .bind keeps_identifier fun name _ => .bind (.discard (keeps_expect _)) fun _ _ => ?_
    have hp : Sound (Pattern.ident name.span name) := Pattern.sound allDeep_nil
    refine .bind (keeps_arrowBody hg _ _ ⟨sound_nil, ?_, sound_none⟩) fun e he =>
      .pure (sound_some.2 he)
    exact sound_cons.2 ⟨hp, sound_nil⟩
  · refine .bind (.attempt (.when keeps_skip (keeps_arrowHead hg))) fun head hh => ?_
    cases head with
    | some head =>
      exact .bind (keeps_arrowBody hg _ _ (sound_some.1 hh)) fun e he => .pure (sound_some.2 he)
    | none => exact .pure sound_none

theorem keeps_yieldExpression (hg : KeepsInner I g) :
    Keeps I (yieldExpression g) := by
  refine .bind keeps_here fun start _ => .bind (.discard (keeps_expect _)) fun _ _ => ?_
  refine .bind (keeps_accept _) fun _ _ => .get fun c => ?_
  refine .either (.pure sound_none) (.map hg.assign fun _ he => sound_some.2 he) fun a ha => ?_
  exact .bind (keeps_since _) fun _ _ => .pure (Expr.sound trivial (allDeep_ofExpr?.2 ha))

theorem keeps_assignBody (hg : KeepsInner I g) :
    Keeps I (assignBody g) := by
  refine .bind (keeps_arrow? hg) fun e he => ?_
  split
  · exact .pure (sound_some.1 he)
  · refine .get fun c => .ite (keeps_yieldExpression hg) ?_
    refine .bind (keeps_conditional hg) fun target ht => .get fun c => ?_
    split
    · refine .otherwise .throw (.bind keeps_skip fun _ _ => .bind hg.assign fun value hv => ?_)
      exact .pure (sound_ofExprs trivial rfl (sound_pair ht hv))
    · exact .pure ht

end TypeStrip.Grammar
