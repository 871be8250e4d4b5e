import TypeStrip.Proofs.Printing.RoundTrip
import TypeStrip.Proofs.Template.Meaning

/-!
On a target without template literals, the text of a template literal is read as the sum that it is
written as, and has its value.
-/
namespace TypeStrip
open Token Grammar Lowering

variable {substitution : List Token → Except ParseError Expr} {e first : Expr} {es rest : List Expr}
  {n depth : Nat} {fs : List Form} {ctx : Context}

/-! ### Reading sums -/

theorem isRead_ofString (t : String) : IsRead substitution n (.ofString t) :=
  .primary rfl fun _ _ => readsPrimary_string

/-- A sum that starts with a string takes up one level more than what is added, however long it
is. -/
theorem isRead_sum (hs : SoundSubstitution substitution) (t : String)
    (hrest : ∀ e ∈ rest, IsRead substitution n e) :
    IsRead substitution (n + 1) (.sum (.ofString t) rest) := by
  -- What has been added so far needs no parentheses, so that it stays on the same level.
  have hsum : IsRead substitution (n + 1) (.sum (.ofString t) rest) ∧
      Code.leftPower .add ≤ (Expr.sum (.ofString t) rest).code.power := by
    have hfirst : Code.leftPower .add ≤ (Expr.ofString t).code.power :=
      show Code.leftPower .add ≤ Code.powerOfPrimary by decide
    refine Expr.sum_induction (P := fun a => IsRead substitution (n + 1) a ∧
      Code.leftPower .add ≤ a.code.power) (fun a b ha hb => ?_) ⟨isRead_ofString t, hfirst⟩ hrest
    exact ⟨ha.1.ofBinaryLeft hs nofun ha.2 hb, le_refl (Code.leftPower .add)⟩
  exact hsum.1

/-- With its template literals written as sums, an expression is read as the part of the grammar
that it is, on as many levels as it is high itself. -/
theorem isRead_concatenated (hs : SoundSubstitution substitution) (h : e.TemplateForm n) :
    IsRead substitution n e.concatenated := by
  have hall {n : Nat} {es : List Expr} (h : ∀ e ∈ es, IsRead substitution n e.concatenated) :
      ∀ e ∈ Expr.concatenatedAll es, IsRead substitution n e := by
    rw [Expr.concatenatedAll_eq_map]
    exact List.forall_mem_map.2 h
  induction h with
  | number h => exact .primary rfl fun _ _ => readsPrimary_number (Number.readsBack_of_decode h)
  | string => exact .primary rfl fun _ _ => readsPrimary_string
  | boolean => exact .primary rfl fun _ _ => readsPrimary_boolean
  | null => exact .primary rfl fun _ _ => readsPrimary_null
  | ident h => exact .primary rfl fun _ _ => readsPrimary_ident h
  | member hname _ iha => exact iha.ofMember hs hname
  | index _ _ iha ihi => exact iha.ofIndex hs ihi
  | call _ _ ihf ihargs => exact ihf.ofCall hs (hall ihargs)
  | conditional _ _ _ iha ihb ihc => exact iha.ofConditional hs ihb ihc
  | assign hname _ ihb =>
    exact .ofAssign hs rfl (.primary rfl fun _ _ => readsPrimary_ident hname) ihb
  | sequence htwo _ ihes =>
    exact .ofSequence hs (by rwa [Expr.concatenatedAll_eq_map, List.length_map]) (hall ihes)
  | unary hop _ iha => exact iha.ofUnary hs fun h => Expr.isPlace_concatenated (hop h)
  | binary hop _ _ iha ihb => exact iha.ofBinary hs hop ihb
  | template _ ihes => exact isRead_sum hs _ (forall_templateOperands isRead_ofString (hall ihes))

/-! ### The text of a template literal -/

/-- The text of an expression, wherever it stands, is read as the expression with its template
literals written as sums. -/
theorem parseExpression_concatenated (h : e.TemplateForm n) (hn : n ≤ 300)
    (htarget : ctx.options.target.lacksArrows = true) (used : List String)
    (least depth file start : Nat) :
    let code := ((lowerExpr ctx e).run used).1
    ∃ e', parseExpression (tokenize (code.guarded least (code.text depth)) file start) = .ok e' ∧
      e'.bare = e.concatenated.bare := by
  obtain ⟨m, hform⟩ := isOperator_concatenated h
  have hcode : ((lowerExpr ctx e).run used).1 = e.concatenated.code := by
    rw [lowerExpr_eq_concatenated htarget h]
    rfl
  have ht := map_form_tokenize_guarded hform least depth file start
  dsimp only
  rw [hcode]
  generalize tokenize (e.concatenated.code.guarded least (e.concatenated.code.text depth)) file start =
    tokens at ht ⊢
  have hs := soundSubstitution_upTo (templateDepth tokens)
  have hlevels : 3 * n + 4 ≤ maxNesting := by
    rw [maxNesting]
    omega
  have hwhole := (isRead_concatenated hs h).guardedWhole hs (e.concatenated.isLooser least) hlevels
  have hreads := hwhole.reads [] (by decide)
  rw [List.append_nil] at hreads
  exact parseExpression_of_reads hreads ((allPlain_forms hform).enclosed _) ht

/-- The text of a template literal on a target that has none, wherever it stands, is read as a chain
of additions: the first text, and then every substitution with the text that follows it where that is
not empty, in order, with the template literals in the substitutions written in the same way. It has
the value of the template literal, the texts with the string values of the substitutions between
them, whatever the variables stand for. -/
theorem Expr.parseExpression_template {s : Span} {texts : List String}
    (h : (Expr.template s texts es).TemplateForm n) (hn : n ≤ 300)
    (htarget : ctx.options.target.lacksArrows = true) (used : List String)
    (least depth file start : Nat) :
    let code := ((lowerExpr ctx (.template s texts es)).run used).1
    ∃ e', parseExpression (tokenize (code.guarded least (code.text depth)) file start) = .ok e' ∧
      e'.bare = (Expr.sum (.ofString (texts.headD ""))
        (templateOperands texts.tail (es.map Expr.concatenated))).bare ∧
      ∀ (M : Type → Type) [Monad M] [LawfulMonad M] (V : Type) (I : Interpretation M V),
        I.eval e' = I.string <$> I.templateText texts (es.map I.eval) := by
  obtain ⟨e', hparse, hbare⟩ := parseExpression_concatenated h hn htarget used least depth file start
  refine ⟨e', hparse, ?_, fun M _ _ V I => ?_⟩
  · rw [hbare, Expr.concatenated, Expr.concatenatedAll_eq_map]
  · rw [← I.eval_bare, hbare, I.eval_bare, I.eval_concatenated, I.eval_template]

/-- A template literal inside a conditional, and a call, with the value that they have. -/
theorem Expr.parseExpression_template_nested :
    let es : List Expr := [.conditional default (.ident default "x")
      (.template default ["b", ""] [.ident default "y"]) (.literal default (.number 1.5)),
      .call default (.ident default "f") [] [.ident default "z"]]
    let code := ((lowerExpr ⟨{}, [], []⟩ (.template default ["a", "c", ""] es)).run []).1
    let functions (name : String) (values : List Literal) : Literal :=
      .string (name ++ "(" ++ String.join (values.map Literal.stringValue) ++ ")")
    let initial (name : String) : Literal := if name = "x" then .boolean true else .string name
    (Expr.template default ["a", "c", ""] es).TemplateForm 3 ∧ 3 ≤ 300 ∧
      Target.es5.lacksArrows = true ∧
      ∃ e', parseExpression (tokenize (code.guarded 0 (code.text 0)) 0 0) = .ok e' ∧
        e'.bare = (Expr.sum (.ofString "a")
          (templateOperands ["c", ""] (es.map Expr.concatenated))).bare ∧
        (∀ (M : Type → Type) [Monad M] [LawfulMonad M] (V : Type) (I : Interpretation M V),
          I.eval e' = I.string <$> I.templateText ["a", "c", ""] (es.map I.eval)) ∧
        ((Interpretation.ofVariables functions).eval e').run initial =
          (.string "abycf(z)", initial) := by
  intro es code functions initial
  have hx : Token.IsIdentifier "x" := ⟨by decide +kernel, by decide +kernel⟩
  have hy : Token.IsIdentifier "y" := ⟨by decide +kernel, by decide +kernel⟩
  have hf : Token.IsIdentifier "f" := ⟨by decide +kernel, by decide +kernel⟩
  have hz : Token.IsIdentifier "z" := ⟨by decide +kernel, by decide +kernel⟩
  have hnumber : Number.decode 1.5 = .finite false 6755399441055744 (-52) := by decide +kernel
  have hinner : (Expr.template default ["b", ""] [.ident default "y"]).TemplateForm 1 :=
    .template (List.forall_mem_singleton.2 (.ident hy))
  have hcall : (Expr.call default (.ident default "f") [] [.ident default "z"]).TemplateForm 2 :=
    .call (.ident hf) (List.forall_mem_singleton.2 (.ident hz))
  have h : (Expr.template default ["a", "c", ""] es).TemplateForm 3 :=
    .template (List.forall_mem_cons.2
      ⟨.conditional (.ident hx) hinner (.number hnumber), List.forall_mem_singleton.2 hcall⟩)
  have htarget : (⟨{}, [], []⟩ : Context).options.target.lacksArrows = true := rfl
  obtain ⟨e', hparse, hbare, hvalue⟩ :=
    parseExpression_template h (by decide) htarget [] 0 0 0 0
  refine ⟨h, by decide, rfl, e', hparse, hbare, hvalue, ?_⟩
  rw [hvalue]
  rfl

/-- An infinite number, such as `1e999`, is written as the variable `Infinity`, and read as that. -/
theorem Expr.parseExpression_template_infinite :
    let infinite : Expr := .literal default (.number (Number.ofDecimal false ⟨1, 999⟩))
    let code := ((lowerExpr ⟨{}, [], []⟩ (.template default ["", ""] [infinite])).run []).1
    Target.es5.lacksArrows = true ∧
      ∃ e', parseExpression (tokenize (code.guarded 0 (code.text 0)) 0 0) = .ok e' ∧
        e'.bare = (Expr.sum (.ofString "") [.ident default "Infinity"]).bare ∧
        e'.bare ≠ (Expr.sum (.ofString "") (templateOperands [""] [infinite])).bare := by
  intro infinite code
  have hform : (Expr.sum (.ofString "") [.ident default "Infinity"]).OperatorForm 1 :=
    .binary nofun (.string "") (.ident ⟨by decide +kernel, by decide +kernel⟩)
  have hdecode : Number.decode (Number.ofDecimal false ⟨1, 999⟩) = .infinite false := by
    decide +kernel
  have hnumber : Code.literalText (.number (Number.ofDecimal false ⟨1, 999⟩)) = "Infinity" := by
    rw [Code.literalText, Code.numberText, hdecode]
    rfl
  have htext : code.guarded 0 (code.text 0) =
      (Expr.sum (.ofString "") [.ident default "Infinity"]).code.text 0 := by
    show (Code.Expr.binary (.literal (.string "")) .add (.literal (.number _))).text 0 =
      (Code.Expr.binary (.literal (.string "")) .add (.ident "Infinity")).text 0
    simp only [Code.Expr.text, hnumber]
    rfl
  obtain ⟨e', hparse, hbare⟩ := parseExpression_forms hform (by decide)
    (map_form_tokenize hform 0 0 0)
  refine ⟨rfl, e', by rw [htext, hparse], hbare, ?_⟩
  rw [hbare]
  simp [infinite, Expr.sum, templateOperands, Expr.bare]

end TypeStrip
