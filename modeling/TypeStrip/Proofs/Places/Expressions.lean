import Mathlib.Data.List.Forall2
import TypeStrip.Grammar.Expression
import TypeStrip.Proofs.Places.Classes

/-! Expressions are located. -/
namespace TypeStrip.Grammar
open Outlined
open TypeStrip.Token (Kind)

variable {S : Source} {stop : Nat} {g : Inner}

/-! ### Parts shared by several expressions -/

theorem locates_expression (hg : LocatesInner S stop g) : Locates S stop (expression g) := by
  refine fun t => .bind (hg.assign t) fun e t' he => .get <| .ite
    (fun _ => .kept t.current.span he (List.subset_append_left ..)) fun _ => ?_
  refine .restart he (by grind) <| .bind
    (locates_collect (locates_after (by decide) hg.assign) t') fun es t _ => ?_
  exact .since <| .node Expr.noConfusion rfl
    (List.append_ne_nil_of_right_ne_nil _ (Placed.parts_ne_nil he))
    (by grind [outlineExprs])

theorem locates_parenthesized (hg : LocatesInner S stop g) : Locates S stop (parenthesized g) :=
  locates_between (by decide) (by decide) ((locates_expression hg).withIn true)

theorem locates_spreadable (hg : LocatesInner S stop g) : Locates S stop (spreadable g) := by
  refine fun t => .here <| .bind (locates_accept (by decide) t) fun _ t' _ =>
    .ite (fun _ => ?_) fun _ =>
    .last (hg.assign t')
  exact .bindLast hg.assign fun e t he => .hull he Expr.noConfusion rfl (by grind)

theorem locates_argumentList (hg : LocatesInner S stop g) :
    Locates S stop (withIn true (commaSeparated .rParen (spreadable g))) :=
  (locates_commaSeparated _ (locates_spreadable hg)).withIn true

theorem locates_arguments (hg : LocatesInner S stop g) : Locates S stop (arguments g) :=
  locates_between (by decide) (by decide) (locates_argumentList hg)

/-! ### Primary expressions -/

theorem locates_elements (hg : LocatesInner S stop g) :
    Locates S stop (withIn true (collectUntil .rBracket (literalElement g))) := by
  refine LocatesTo.withIn (locates_collectUntil (P := fun _ => True) _ fun t => ?_) true
  refine .accept (by decide) (fun _ => ?_) ?_
  · exact .ofParts trivial (by simp) (List.nil_subset _)
  · refine .bind (locates_spreadable hg t) fun e t' _ => ?_
    refine .get <| .otherwise (fun _ => (locates_expect (by decide) t').discard) fun _ => ?_
    exact .kept t.current.span trivial (by grind)

theorem locates_keyedProperty (hg : LocatesInner S stop g) : Locates S stop (keyedProperty g) := by
  refine fun t => .bind (locates_methodWords t) fun words t _ =>
    .bind (locates_key hg t) fun k t _ => .get ?_
  refine .ite (fun _ => ?_) fun _ => .check (fun _ => .complain _) fun _ => ?_
  · refine .bind (locatesAt_functionRest hg _ _ (List.nil_subset _)) fun f t _ => ?_
    exact .ofParts trivial (by simp) (by rw [parts_property, Property.outline]; grind)
  refine .bind (locates_accept (by decide) t) fun _ t _ => .ite (fun _ => ?_) fun _ => ?_
  · exact .bind (hg.assign t) fun e t _ =>
      .ofParts trivial (by simp) (by rw [parts_property, Property.outline]; grind)
  · split
    · rename_i name _
      -- The variable stands where the key does.
      refine .restart (b := Expr.ident name.span name.text) Expr.noConfusion
        (by grind [Key.outline, Expr.outline]) ?_
      refine .bindLast (locates_after (by decide) hg.assign) fun e? t h => ?_
      cases e? with
      | none =>
        exact .ofParts trivial (by simp)
          (by grind [Property.outline, Key.outline, Expr.outline])
      | some e =>
        rw [parts_some]
        refine .alsoHull (Expr.outline (.ident name.span name.text) ++ e.outline) (h e rfl)
          (by grind) ?_
        have hspan : name.span.merge e.span =
          (Placed.span (Expr.ident name.span name.text)).merge (Placed.span e) := rfl
        exact .ofParts trivial (by simp) (by grind [Property.outline, Key.outline, Expr.outline])
    · exact .complain _

theorem locates_properties (hg : LocatesInner S stop g) :
    Locates S stop (withIn true (commaSeparated .rBrace (property g))) := by
  refine LocatesTo.withIn (locates_commaSeparated (P := fun _ => True) _ fun t => ?_) true
  refine .bind (locates_accept (by decide) t) fun _ t _ => .ite (fun _ => ?_) fun _ => ?_
  · exact .bind (hg.assign t) fun e t _ =>
      .ofParts trivial nofun (by rw [parts_property, Property.outline]; grind)
  · exact .last <| (locates_keyedProperty hg t).weaken fun _ _ => trivial

/-! ### Templates -/

/-- Parsers that each give a value or complain, on the spot. -/
theorem run_mapM {α β : Type} {p : α → Parser β} {R : α → β → Prop} {E : ParseError → Prop}
    {t : Tape}
    (as : List α) (hp : ∀ a ∈ as, (∃ b, p a t = .ok b t ∧ R a b) ∨ ∃ e, p a t = .error e t ∧ E e) :
    (∃ bs, as.mapM p t = .ok bs t ∧ List.Forall₂ R as bs) ∨ ∃ e, as.mapM p t = .error e t ∧
      E e := by
  induction as with
  | nil => exact .inl ⟨[], rfl, .nil⟩
  | cons a as ih =>
    rw [List.mapM_cons, Parser.bind_run]
    rcases hp a List.mem_cons_self with ⟨b, hb, hR⟩ | ⟨e, he, hE⟩
    · rw [hb]
      rcases ih fun a ha => hp a (List.mem_cons_of_mem _ ha) with ⟨bs, hbs, hRs⟩ | ⟨e, he, hE⟩
      · refine .inl ⟨b :: bs, ?_, .cons hR hRs⟩
        show (as.mapM p >>= fun bs => pure (b :: bs)) t = _
        rw [Parser.bind_run, hbs]
        rfl
      · refine .inr ⟨e, ?_, hE⟩
        show (as.mapM p >>= fun bs => pure (b :: bs)) t = _
        rw [Parser.bind_run, he]
    · exact .inr ⟨e, by rw [he], hE⟩

/-- What such parsers give. -/
theorem forall₂_of_mapM {α β : Type} {p : α → Parser β} {R : α → β → Prop} {t t' : Tape}
    {as : List α} {bs : List β} (h : as.mapM p t = .ok bs t')
    (hp : ∀ a ∈ as, (∃ b, p a t = .ok b t ∧ R a b) ∨ ∃ e, p a t = .error e t) :
    t' = t ∧ List.Forall₂ R as bs := by
  rcases run_mapM (E := fun _ => True) as fun a ha => (hp a ha).imp_right fun ⟨e, he⟩ =>
    ⟨e, he, trivial⟩
    with ⟨cs, hcs, hR⟩ | ⟨e, he, -⟩
  · rw [hcs] at h
    cases h
    exact ⟨rfl, hR⟩
  · rw [he] at h
    cases h

theorem LocatesAt.mapM {α β γ : Type} [Outlined α] {P : α → Prop} {t : Tape} {start : Span}
    {os : List Outline} {cs : List γ} {p : γ → Parser β} {f : List β → Parser α} (R : γ → β → Prop)
    (hp : ∀ c ∈ cs, (∃ b, p c t = .ok b t ∧ R c b) ∨ ∃ e, p c t = .error e t ∧ S.Holds e.span)
    (hf : ∀ bs, List.Forall₂ R cs bs → LocatesAt S stop t start os P (f bs)) :
    LocatesAt S stop t start os P (cs.mapM p >>= f) := by
  intro hs
  rw [Parser.bind_run]
  rcases run_mapM cs hp with ⟨bs, hbs, hR⟩ | ⟨e, he, hE⟩
  · rw [hbs]
    exact hf bs hR hs
  · rw [he]
    exact hE

/-- The expressions in the substitutions of a template lie inside it. -/
theorem in_of_substitutions {t : Token} {subs : List Template.Substitution} {es : List Expr}
    (h : List.Forall₂ (fun sub e =>
      ReadsToEnd (substitutionTokens t.span.file (t.span.start + 1) sub) e ∧
        ∀ o ∈ e.outline, o.Faithful S ∧ o.span.Within t.span) subs es) :
    ∀ o ∈ outlineExprs es, o.Faithful S ∧ o.span.Within t.span := by
  induction h with
  | nil => simp [outlineExprs]
  | cons h _ ih => exact fun o ho => (List.mem_append.1 ho).elim (h.2 o) (ih o)

theorem locates_templateLiteral (hg : LocatesInner S stop g) {t : Tape}
    (hk : t.current.kind = .template) :
    LocatesAt S stop t t.current.span [] (Whole S) (templateLiteral g) := by
  refine .take (passable_of_kind hk (by decide)) fun hlies => ?_
  split
  · exact .throw List.mem_cons_self rfl
  rename_i parts hsplit
  refine .mapM (fun sub e =>
    ReadsToEnd (substitutionTokens t.current.span.file (t.current.span.start + 1) sub) e ∧
      ∀ o ∈ e.outline, o.Faithful S ∧ o.span.Within t.current.span)
        (fun sub hsub => ?_) fun es hes => ?_
  · obtain ⟨least, most, hleast, hmost, hfollow⟩ := hlies.follow_substitution hk hsplit hsub
    cases hr : g.substitution (substitutionTokens t.current.span.file
      (t.current.span.start + 1) sub) with
    | ok e =>
      obtain ⟨hreads, hin⟩ := hg.substitution.reads _ _ _ _ hfollow hr
      refine .inl ⟨e, rfl, hreads, fun o ho => ⟨(hin o ho).1, ?_, ?_⟩⟩
      · exact Nat.le_trans hleast (hin o ho).2.1
      · exact Nat.le_trans (hin o ho).2.2 hmost
    | error e => exact .inr ⟨e, rfl, hg.substitution.complains _ _ _ _ hfollow hr⟩
  · refine .pure Expr.noConfusion (by simp) fun hs o ho => ?_
    rw [parts_expr, Expr.outline_template] at ho
    cases List.mem_singleton.1 ho
    obtain ⟨-, hread⟩ := hs.parts (.leaf t.current.span) List.mem_cons_self
    have hin := in_of_substitutions hes
    refine ⟨.node hlies.holds ⟨t.current.value, parts, (hlies.template hk), hsplit, rfl, ?_⟩
      (fun o ho => (hin o ho).2) fun o ho => (hin o ho).1, hread⟩
    rw [← hlies.holds.file]
    exact hes.imp fun _ _ h => h.1

/-! ### Primary expressions -/

/-- An expression that takes one token. -/
private theorem locatesAt_token {t : Tape} (h : t.Passable) {e : Expr}
    (he : e.outline = [.leaf t.current.span]) :
    LocatesAt S stop t t.current.span [] (Whole S) (do skip; return e) := by
  refine .skip h <| .ofParts ?_ (by simp) (by simp [he])
  rintro rfl
  cases he

/-- An expression that is a node from the start to the place. -/
private theorem locatesAt_function_since (hg : LocatesInner S stop g) (isAsync : Bool) {t : Tape}
    {start : Span} {os : List Outline} : LocatesAt S stop t start os (Whole S) (do
      let f ← function g isAsync false false
      return Expr.function (← since start) f) :=
  .bind (locates_function hg _ _ _ t) fun _ _ _ => .since <|
    .node Expr.noConfusion rfl (by simp) (by grind)

theorem locates_primary (hg : LocatesInner S stop g) {heritage : Parser Expr}
    (hh : Locates S stop heritage) : Locates S stop (primary g heritage) := by
  intro t
  have name (h : t.Passable) (hw : t.current.kind.isWord = true) {p : Parser Expr}
      (hp : LocatesAt S stop t.advance t.current.span
        [.node t.current.span (.name t.current.value) [], .leaf t.current.span] (Whole S) p) :
      LocatesAt S stop t t.current.span [] (Whole S) (do skip; p) :=
    .lies fun hlies => .skip h <|
      .also (.name t.current.value) _ (o := .leaf t.current.span) List.mem_cons_self
        (hlies.word hw) (List.forall_mem_nil _) hp
  have hident (t : Tape) : LocatesAt S stop t.advance t.current.span
      [.node t.current.span (.name t.current.value) [], .leaf t.current.span] (Whole S)
      (pure (Expr.ident t.current.span t.current.value)) :=
    .ofParts Expr.noConfusion (by simp) (by simp [Expr.outline_ident])
  refine .get ?_
  dsimp only
  split
  · rename_i h
    exact locatesAt_token (passable_of_kind h (by decide)) rfl
  · rename_i h
    exact locatesAt_token (passable_of_kind h (by decide)) rfl
  · rename_i h
    exact locatesAt_token (passable_of_kind h (by decide)) rfl
  · rename_i h
    exact locatesAt_token (passable_of_kind h (by decide)) rfl
  · rename_i h
    exact locatesAt_token (passable_of_kind h (by decide)) rfl
  · rename_i h
    exact locatesAt_token (passable_of_kind h (by decide)) rfl
  · exact locates_templateLiteral hg (by assumption)
  · rename_i h
    exact locatesAt_token (passable_of_kind h (by decide)) rfl
  · rename_i h
    exact locatesAt_token (passable_of_kind h (by decide)) rfl
  · rename_i h
    exact name (passable_of_kind h (by decide)) (congrArg Kind.isWord h) <|
      .ite (fun _ => locatesAt_function_since hg _) fun _ => hident t
  · exact locatesAt_function_since hg _
  · refine .bind (locates_classRest hg hh _ _ t) fun c t _ => ?_
    exact .since <| .node Expr.noConfusion rfl (by simp) (by grind)
  · rename_i h
    exact .ite (fun _ => name (passable_of_kind h (by decide)) (congrArg Kind.isWord h)
      (hident t)) fun _ =>
      .complainFound _
  · refine .bind (locates_parenthesized hg t) fun e t _ => ?_
    exact .since <| .node Expr.noConfusion rfl (by simp) (by grind)
  · refine .between (by decide) (by decide) (locates_elements hg) fun es s t _ => ?_
    exact .since <| .node Expr.noConfusion rfl (by simp) (by grind)
  · refine .between (by decide) (by decide) (locates_properties hg) fun ps s t _ => ?_
    exact .since <| .node Expr.noConfusion rfl (by simp) (by grind)
  · exact .complain _
  · exact .complain _
  · exact .complainFound _

/-! ### Members and calls -/

theorem locates_indexed (hg : LocatesInner S stop g) : Locates S stop (indexed g) :=
  locates_between (by decide) (by decide) ((locates_expression hg).withIn true)

theorem locatesAt_optionalLink (hg : LocatesInner S stop g) {t : Tape} {start : Span}
    {os : List Outline}
    {e : Expr} (he : e.outline ⊆ os) (hos : os ≠ []) :
    LocatesAt S stop t start os (Whole S) (optionalLink g start e) := by
  refine .get ?_
  split
  · refine .bind (locates_arguments hg t) fun es t _ => ?_
    exact .since <| .node Expr.noConfusion rfl (by simp [hos]) (by grind [outlineTypes])
  · refine .bind (locates_typeArguments hg t) fun ts t _ =>
      .bind (locates_arguments hg t) fun es t _ => ?_
    exact .since <| .node Expr.noConfusion rfl (by simp [hos]) (by grind)
  · refine .bind (locates_indexed hg t) fun i t _ => ?_
    exact .since <| .node Expr.noConfusion rfl (by simp) (by grind)
  · refine .bind (locates_anyName t) fun n t _ => ?_
    exact .since <| .node Expr.noConfusion rfl (by simp) (by grind)

theorem locates_callTypeArguments (hg : LocatesInner S stop g) : Locates S stop
    (callTypeArguments g) :=
  fun t => .bind (locates_typeArguments hg t) fun _ _ _ => .get <|
    .check (fun _ => .complain _) fun _ =>
    .ofParts trivial nofun (by grind)

theorem locatesAt_link (hg : LocatesInner S stop g) (allowCall : Bool) {t : Tape} {start : Span}
    {os : List Outline} {e : Expr} (he : e.outline ⊆ os) (hos : os ≠ []) :
    LocatesAt S stop t start os (fun e? => ∀ e, e? = some e → Whole S e)
      (link g start allowCall e) := by
  have call (ts : List TypeExpr) (t : Tape) (os : List Outline) (he : e.outline ⊆ os)
      (hts : outlineTypes ts ⊆ os) (hos : os ≠ []) :
      LocatesAt S stop t start os (fun e? => ∀ e, e? = some e → Whole S e) (do
        let args ← arguments g
        return some (Expr.call (← since start) e ts args)) := by
    refine .bind (locates_arguments hg t) fun es t _ => .since ?_
    exact .foundNode Expr.noConfusion rfl (by simp [hos]) (by grind)
  refine .get ?_
  split
  · rename_i h
    refine .skip (passable_of_kind h (by decide)) <| .bindLast locates_anyName fun n t hn => ?_
    exact .foundHull hn Expr.noConfusion rfl (by grind)
  · rename_i h
    refine .skip (passable_of_kind h (by decide)) ?_
    refine .bindSame (locatesAt_optionalLink hg (by grind) (by simp)) fun e t he => .found he ?_
    grind
  · refine .bind (locates_indexed hg t) fun i t _ => .since ?_
    exact .foundNode Expr.noConfusion rfl (by simp) (by grind)
  · exact .ite (fun _ => .nothing nofun rfl) fun _ => call _ t os he (List.nil_subset _) hos
  · refine .ite (fun _ => .nothing nofun rfl) fun _ => ?_
    refine .bind (locates_callTypeArguments hg t).attempt fun ts? t' _ => ?_
    cases ts? with
    | some ts => exact call ts _ _ (by grind) (by grind [parts_some]) (by simp [hos])
    | none => exact .nothing nofun rfl
  · rename_i h
    refine .ite (fun _ => .nothing nofun rfl) fun _ => .skip (passable_of_kind h (by decide)) <|
      .since ?_
    exact .foundNode Expr.noConfusion rfl (by simp) (by grind)
  · exact .complain _
  · exact .nothing nofun rfl

theorem locates_newExpression (hg : LocatesInner S stop g) {callee : Parser Expr}
    (hc : Locates S stop callee) : Locates S stop (newExpression g callee) := by
  intro t₀
  have rest {e : Expr} (ts : List TypeExpr) {t : Tape} {os : List Outline} (he : e.outline ⊆ os)
      (hts : outlineTypes ts ⊆ os) (hos : os ≠ []) :
      LocatesAt S stop t t₀.current.span os (Whole S) (do
        let args ← if (← get).at_ .lParen then arguments g else pure []
        return Expr.new (← since t₀.current.span) e ts args) := by
    refine .get <| .either (fun _ => locates_arguments hg t)
      (fun _ => .nothing trivial rfl) fun es t _ => .since ?_
    exact .node Expr.noConfusion rfl (by simp [hos]) (by grind)
  refine .here <| .expect' (by decide) fun s t => .get <| .check (fun _ => .complain _) fun _ => ?_
  refine .bind (hc t) fun e t _ => .get <| .ite (fun _ => ?_) fun _ => ?_
  · refine .bind (locates_typeArguments hg t).attempt fun ts? t _ => rest _ (by grind) ?_ (by simp)
    cases ts? with
    | none => exact List.nil_subset _
    | some ts => grind [parts_some]
  · exact rest [] (by grind) (List.nil_subset _) (by simp)

theorem locates_leftHandSideUpTo (hg : LocatesInner S stop g) (fuel : Nat) (allowCall : Bool) :
    Locates S stop (leftHandSideUpTo g fuel allowCall) := by
  induction fuel generalizing allowCall with
  | zero => exact fun _ => .complain _
  | succ fuel ih =>
    refine fun t => .get <| .either (fun _ => locates_newExpression hg (ih _) t)
      (fun _ => locates_primary hg (ih _) t) fun e t' he => ?_
    exact locatesAt_extend (fun _ _ _ _ hos hne => locatesAt_link hg _ hos (hne rfl)) he (by grind)
      (fun _ => by simp)

theorem locates_leftHandSide (hg : LocatesInner S stop g) : Locates S stop (leftHandSide g) :=
  fun t => .get <| locates_leftHandSideUpTo hg _ _ t

/-! ### Operators and operands -/

theorem locates_postfixExpr (hg : LocatesInner S stop g) : Locates S stop (postfixExpr g) := by
  refine fun t => .bind (locates_leftHandSide hg t) fun e t' he => .get ?_
  have kept : LocatesAt S stop t' t.current.span (gains t.current.span e ++ []) (Whole S)
    (pure e) :=
    .kept t.current.span he (List.subset_append_left ..)
  dsimp only
  split
  · rename_i op hop
    have hp : t'.Passable := by
      revert hop
      split
      · exact fun _ => passable_of_kind (by assumption) (by decide)
      · exact fun _ => passable_of_kind (by assumption) (by decide)
      · simp
    refine .ite (fun _ => kept) fun _ => .restart he (by grind) ?_
    refine .require (fun _ => .throwAt he (List.Subset.refl _) _) fun _ => .skip hp <| .since ?_
    exact .node Expr.noConfusion rfl (by simp) (by grind)
  · exact kept

theorem locates_unaryBody (hg : LocatesInner S stop g) : Locates S stop (unaryBody g) := by
  refine fun t => .get ?_
  dsimp only
  split
  · rename_i op hop
    refine .skip (passable_of_some (by decide) hop) <| .bindLast hg.unary fun e t he => ?_
    refine .check (fun _ => .throwAt he (by grind) _) fun _ =>
      .hull he Expr.noConfusion rfl (by grind)
  · refine .bind (locates_accept (by decide) t) fun _ t' _ => .ite (fun _ => ?_) fun _ => ?_
    · exact .bindLast hg.unary fun e t he => .hull he Expr.noConfusion rfl (by grind)
    refine .bind (locates_accept (by decide) t') fun _ t _ => .ite (fun _ => ?_) fun _ => ?_
    · refine .bind (hg.type t) fun ty t _ => .bind (locates_closeAngle t) fun _ t _ => ?_
      exact .bindLast hg.unary fun e t he => .hull he Expr.noConfusion rfl (by grind)
    · exact .last (locates_postfixExpr hg t)

theorem locates_binaryUpTo (hg : LocatesInner S stop g) (fuel power : Nat) :
    Locates S stop (binaryUpTo g fuel power) := by
  induction fuel generalizing power with
  | zero => exact fun _ => .complain _
  | succ fuel ih =>
    refine fun t => .bind (hg.unary t) fun e t' he => ?_
    refine locatesAt_extend (fun left t os hleft hos _ => ?_) he (by grind) (fun _ => by simp)
    refine .restart hleft hos <| .get <| .inAllowed ?_
    refine .ite (fun _ => .nothing nofun rfl) fun _ => .ite (fun h => ?_) fun _ => ?_
    · refine .skip (passable_of_at_ h (by decide)) <| .bindLast hg.type fun ty t hty => ?_
      dsimp only
      split
      · exact .foundHull hty Expr.noConfusion rfl (by grind)
      · exact .foundHull hty Expr.noConfusion rfl (by grind)
    · split
      · exact .complain _
      · rename_i op hop
        refine .skip (passable_of_some (by decide) hop) <| .bindLast (ih _) fun right t hright => ?_
        exact .foundHull hright Expr.noConfusion rfl (by grind)

theorem locates_conditional (hg : LocatesInner S stop g) : Locates S stop (conditional g) := by
  refine fun t => .get <| .bind (locates_binaryUpTo hg _ _ t) fun test t' htest => ?_
  refine .restart htest (by grind) <| .bind (locates_accept (by decide) t') fun _ t _ => ?_
  refine .ite (fun _ => ?_) fun _ => .placed htest (by grind)
  refine .bind (hg.assign.withIn true t) fun yes t _ => .expect' (by decide) fun s t => ?_
  exact .bindLast hg.assign fun no t hno => .hull hno Expr.noConfusion rfl (by grind)

/-! ### Arrows, `yield` and assignments -/

theorem locatesAt_arrowHead (hg : LocatesInner S stop g) {t : Tape} {start : Span}
    {os : List Outline} :
    LocatesAt S stop t start os (fun _ => True) (arrowHead g) := by
  refine .bind (locates_optionalTypeParams hg t) fun tps t _ =>
    .bind (locates_params hg t) fun ps t _ => ?_
  refine .bind (locates_returnType hg t) fun r t _ => .get <| ?_
  refine .ite (fun _ => .bindSame (.complain _) fun _ _ => False.elim) fun h => .skip ?_ ?_
  · exact passable_of_at_ (k := .fatArrow) (by simp_all) (by decide)
  · exact .ofParts trivial nofun (by grind)

theorem locatesAt_arrowBody (hg : LocatesInner S stop g) (isAsync : Bool) {t : Tape} {start : Span}
    {os : List Outline} {head : List TypeParam × List Param × Option TypeExpr}
      (hos : parts head ⊆ os) :
    LocatesAt S stop t start os (Whole S) (arrowBody g start isAsync head) := by
  obtain ⟨tps, ps, r⟩ := head
  have value : LocatesTo S stop (fun b => b.outline ≠ []) (Body.value <$> g.assign) :=
    hg.assign.map (fun _ he => Placed.parts_ne_nil he) nofun fun _ => List.Subset.refl _
  refine .get <| .either (fun _ => locates_blockBody hg t) (fun _ => value t) fun body t hb =>
    .since ?_
  refine .node Expr.noConfusion rfl (by simp [hb]) ?_
  rw [Func.outline]
  grind

theorem locates_arrow? (hg : LocatesInner S stop g) :
    LocatesTo S stop (fun e? => ∀ e, e? = some e → Whole S e) (arrow? g) := by
  intro t
  have skipAsync {b c : Bool} (h : (t.cursor.atWord "async" && b && c) = true) : t.Passable :=
    passable_of_atWord (Bool.and_eq_true_iff.1 (Bool.and_eq_true_iff.1 h).1).1
  have arrow (isAsync : Bool) {head : List TypeParam × List Param × Option TypeExpr} {t' : Tape}
      {os : List Outline} (hos : parts head ⊆ os) :
      LocatesAt S stop t' t.current.span os (fun e? => ∀ e, e? = some e → Whole S e)
        (do return some (← arrowBody g t.current.span isAsync head)) :=
    .bindSame (locatesAt_arrowBody hg _ hos) fun e _ he => .found he (by grind)
  refine .get <| .ite (fun _ => .when (fun h => locatesAt_skip (skipAsync h)) fun t' => ?_) fun _ =>
    .ite (fun _ => .nothing nofun rfl) fun _ => ?_
  · refine .bind (locates_identifier t') fun n t _ => .expect' (by decide) fun s t => ?_
    refine .also .plain [n.outline] (o := n.outline) (by grind) trivial
      (fun c hc => .inr ⟨by grind, by grind⟩) (arrow _ ?_)
    grind [Param.outline, Pattern.outline, outlineParams, outlineTypeParams, Name.outline,
      Outline.leaf, Outline.span, outlineType?]
  · refine .bindSame (LocatesAt.attempt (P := fun _ => True) ?_) fun head? t' _ => ?_
    · exact .when (fun h => locatesAt_skip (skipAsync h)) fun _ => locatesAt_arrowHead hg
    · cases head? with
      | some head => exact arrow _ (by grind)
      | none => exact .nothing nofun rfl

theorem locates_yieldExpression (hg : LocatesInner S stop g) : Locates S stop
    (yieldExpression g) := by
  refine fun t => .here <| .expect' (by decide) fun s t =>
    .bind (locates_accept (by decide) t) fun _ t _ => .get ?_
  refine .either (fun _ => .nothing nofun rfl) (fun _ => hg.assign.some t) fun e t _ => ?_
  exact .since <| .node Expr.noConfusion rfl (by simp) (by grind)

theorem locates_assignBody (hg : LocatesInner S stop g) : Locates S stop (assignBody g) := by
  refine fun t => .bind (locates_arrow? hg t) fun e? t he => ?_
  cases e? with
  | some e => exact .placed (he e rfl) (by grind)
  | none =>
    refine .get <| .ite (fun _ => .last (locates_yieldExpression hg t)) fun _ => ?_
    refine .bind (locates_conditional hg t) fun target t' ht => .restart ht (by grind) <| .get ?_
    split
    · rename_i op hop
      refine .require (fun _ => .throwAt ht (List.Subset.refl _) _) fun _ => ?_
      refine .skip (passable_of_some (by decide) hop) <| .bindLast hg.assign fun value t hv => ?_
      exact .hull hv Expr.noConfusion rfl (by grind)
    · exact .placed ht (List.Subset.refl _)

end TypeStrip.Grammar
