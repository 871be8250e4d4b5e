import TypeStrip.Proofs.Printing.Expressions

/-!
Writing an operator expression and reading its text again gives the expression back, apart from
parentheses and places.
-/
namespace TypeStrip
open Token Grammar Lowering

variable {e : Expr} {n depth : Nat} {fs gs : List Form}

/-! ### The tokens of an operator expression -/

/-- Tokens among which are no marks of the end, arrows or malformed tokens. -/
def AllPlain (fs : List Form) : Prop := ∀ f ∈ fs, f.kind ∉ [Kind.eof, .fatArrow, .error]

theorem allPlain_nil : AllPlain [] := List.forall_mem_nil _

theorem AllPlain.cons {f : Form} (hf : f.kind ∉ [Kind.eof, .fatArrow, .error]) (h : AllPlain fs) :
    AllPlain (f :: fs) := List.forall_mem_cons.2 ⟨hf, h⟩

theorem AllPlain.append (hf : AllPlain fs) (hg : AllPlain gs) : AllPlain (fs ++ gs) :=
  List.forall_mem_append.2 ⟨hf, hg⟩

theorem AllPlain.enclosed (needed : Bool) (h : AllPlain fs) : AllPlain (enclosed needed fs) := by
  unfold TypeStrip.enclosed
  split
  · exact .cons (by decide) (h.append (.cons (by decide) allPlain_nil))
  · exact h

theorem AllPlain.separated {fss : List (List Form)} (h : ∀ fs ∈ fss, AllPlain fs) :
    AllPlain (separated fss) := by
  cases fss with
  | nil => exact allPlain_nil
  | cons fs fss =>
    obtain ⟨hfs, hfss⟩ := List.forall_mem_cons.1 h
    rw [separated_eq]
    refine hfs.append fun f hf => ?_
    obtain ⟨gs, hgs, hf⟩ := List.mem_flatten.1 hf
    obtain ⟨gs, hmem, rfl⟩ := List.mem_map.1 hgs
    exact AllPlain.cons (by decide) (hfss gs hmem) f hf

theorem AllPlain.args {es : List Expr} (h : ∀ e ∈ es, AllPlain e.forms) :
    ∀ fs ∈ Expr.argForms es, AllPlain fs := by
  rw [Expr.argForms_eq_map]
  exact List.forall_mem_map.2 fun e he => (h e he).enclosed _

theorem allPlain_word {word : String} (h : Text.isWord word = true) : AllPlain [.of word] := by
  refine .cons ?_ allPlain_nil
  rw [Form.of_word h]
  show kindOfWord word ∉ _
  rcases kindOfWord_cases word with hk | hk
  · rw [hk]
    decide
  · intro hmem
    have hall : ∀ k ∈ [Kind.eof, .fatArrow, .error], k.isReserved = false := by decide
    rw [hall _ hmem] at hk
    exact absurd hk (by decide)

theorem allPlain_forms (h : e.OperatorForm n) : AllPlain e.forms := by
  have hone {f : Form} (hf : f.kind ∉ [Kind.eof, .fatArrow, .error]) : AllPlain [f] :=
    .cons hf allPlain_nil
  induction h with
  | number => exact hone (show Kind.number ∉ _ by decide)
  | string => exact hone (show Kind.string ∉ _ by decide)
  | boolean value => cases value <;> exact hone (by decide)
  | null | this => exact hone (by decide)
  | ident h => exact allPlain_word h.word
  | @binary _ _ _ _ op _ _ _ iha ihb =>
    exact (iha.enclosed _).append (.cons (by cases op <;> decide) (ihb.enclosed _))
  | @unary _ _ op _ _ _ iha =>
    have hop : (Form.of op.text).kind ∉ [Kind.eof, .fatArrow, .error] := by cases op <;> decide
    rw [Expr.forms]
    split
    · exact (iha.enclosed _).append (hone hop)
    · exact .cons hop (iha.enclosed _)
  | await _ iha => exact .cons (by decide) (iha.enclosed _)
  | @assign _ _ _ _ op _ _ _ iha ihb =>
    exact (iha.enclosed _).append (.cons (by cases op <;> decide) (ihb.enclosed _))
  | conditional _ _ _ iha ihb ihc =>
    exact (iha.enclosed _).append
      (.cons (by decide) ((ihb.enclosed _).append (.cons (by decide) (ihc.enclosed _))))
  | member hname _ iha | optionalMember hname _ iha =>
    exact (iha.enclosed _).append (.cons (by decide) (allPlain_word hname))
  | index _ _ iha ihi =>
    exact (iha.enclosed _).append (.cons (by decide) (ihi.append (hone (by decide))))
  | optionalIndex _ _ iha ihi =>
    exact (iha.enclosed _).append
      (.cons (by decide) (.cons (by decide) (ihi.append (hone (by decide)))))
  | call _ _ ihf ihargs =>
    exact (ihf.enclosed _).append
      (.cons (by decide) ((AllPlain.separated (.args ihargs)).append (hone (by decide))))
  | optionalCall _ _ ihf ihargs =>
    exact (ihf.enclosed _).append (.cons (by decide)
      (.cons (by decide) ((AllPlain.separated (.args ihargs)).append (hone (by decide)))))
  | @array _ _ es _ ihes =>
    have helements : ∀ e ∈ es, AllPlain e.forms := fun e he => by
      by_cases ho : e = .omitted
      · subst ho
        exact allPlain_nil
      · exact ihes e he ho
    refine .cons (by decide) ((AllPlain.separated fun fs hfs => ?_).append (hone (by decide)))
    split at hfs
    · rcases List.mem_append.1 hfs with hfs | hfs
      · exact AllPlain.args helements fs hfs
      · exact List.mem_singleton.1 hfs ▸ allPlain_nil
    · exact AllPlain.args helements fs hfs
  | sequence _ _ ihes => exact AllPlain.separated (.args ihes)

/-- The text of an operator expression has its tokens. -/
theorem map_form_tokenize (h : e.OperatorForm n) (depth file start : Nat) :
    (tokenize (e.code.text depth) file start).map form = e.forms ++ [.end_] := by
  have hends : e.Ends [] := ⟨endsWord_nil, nofun⟩
  have hspelled : e.Spelled depth := spelled_code h
  have hl := hspelled [] [] hends .nil file start
  rwa [List.append_nil, List.append_nil] at hl

/-- So has its text where at least the given power is needed. -/
theorem map_form_tokenize_guarded (h : e.OperatorForm n) (least depth file start : Nat) :
    (tokenize (e.code.guarded least (e.code.text depth)) file start).map form =
      enclosed (e.isLooser least) e.forms ++ [.end_] := by
  have hspelled : e.Spelled depth := spelled_code h
  have hl := hspelled.guarded least [] [] ⟨endsWord_nil, nofun⟩ .nil file start
  rwa [List.append_nil, List.append_nil] at hl

/-! ### Reading the text again -/

/-- The tape before tokens of which the last one marks the end. -/
theorem ofTokens_on {tokens : List Token} (h : tokens.map Token.form = fs ++ [.end_])
    (hfs : AllPlain fs) : (Tape.ofTokens tokens).On maxNesting fs := by
  have hlast : tokens.getLast?.any (·.kind == .eof) = true := by
    have hl := congrArg List.getLast? h
    rw [List.getLast?_map, List.getLast?_concat] at hl
    obtain ⟨t, ht, hform⟩ := Option.map_eq_some_iff.1 hl
    rw [ht, Option.any_some, beq_iff_eq]
    exact congrArg Form.kind hform
  have hinner (f : Form) (hf : f ∈ fs) : f.kind ≠ .eof ∧ f.kind ≠ .fatArrow := by
    have hkind := hfs f hf
    simp only [List.mem_cons, not_or] at hkind
    exact ⟨hkind.1, hkind.2.1⟩
  cases tokens with
  | nil => exact absurd h.symm (by simp)
  | cons t ts =>
    rw [Tape.ofTokens, hlast]
    exact ⟨⟨h, hinner⟩, rfl, Nat.le_of_eq (Nat.zero_add _)⟩

/-- What is read of all tokens as an expression is the expression that they stand for. -/
theorem parseExpression_of_reads {Q : Expr → Prop} {tokens : List Token}
    (h : Reads maxNesting (expression (grammar tokens)) fs [] Q) (hfs : AllPlain fs)
    (ht : tokens.map Token.form = fs ++ [.end_]) : ∃ e, parseExpression tokens = .ok e ∧ Q e := by
  have hwhole : Reads maxNesting (wholeExpression (grammar tokens)) fs [] Q := by
    refine h.bind fun a ha => .get fun c hc => ?_
    rw [hc.atEnd, if_neg (by decide)]
    exact .pure ha
  obtain ⟨e, t, hr, -, he⟩ := hwhole _ (ofTokens_on ht hfs)
  refine ⟨e, ?_, he⟩
  rw [parseExpression, substitutionUpTo_succ]
  show valueOf (wholeExpression (grammar tokens) (Tape.ofTokens tokens)) = _
  rw [hr]
  rfl

/-- An operator expression is read from its tokens. -/
theorem parseExpression_forms (h : e.OperatorForm n) (hn : n ≤ 300) {tokens : List Token}
    (ht : tokens.map Token.form = e.forms ++ [.end_]) :
    ∃ e', parseExpression tokens = .ok e' ∧ e'.bare = e.bare := by
  have hs := soundSubstitution_upTo (templateDepth tokens)
  have hlevels : 3 * n + 2 ≤ maxNesting := by
    rw [maxNesting]
    omega
  have hreads := ((isRead hs h).readsWhole hs hlevels).reads [] (by decide)
  rw [List.append_nil] at hreads
  exact parseExpression_of_reads hreads (allPlain_forms h) ht

/-- The text of an operator expression, on any target and wherever it stands, has no malformed
token and is read as the expression again, apart from parentheses and places. -/
theorem Expr.parseExpression_text (h : e.OperatorForm n) (hn : n ≤ 300) (ctx : Context)
    (used : List String) (depth file start : Nat) :
    let tokens := tokenize (((lowerExpr ctx e).run used).1.text depth) file start
    (∀ t ∈ tokens, t.kind ≠ .error) ∧
      ∃ e', parseExpression tokens = .ok e' ∧ e'.bare = e.bare := by
  have hforms := map_form_tokenize h depth file start
  have hcode : ((lowerExpr ctx e).run used).1 = e.code := by
    rw [lowerExpr_eq_code h]
    rfl
  dsimp only
  rw [hcode]
  refine ⟨fun t ht => ?_, parseExpression_forms h hn hforms⟩
  have hmem : t.form ∈ e.forms ++ [.end_] := hforms ▸ List.mem_map_of_mem ht
  rcases List.mem_append.1 hmem with hmem | hmem
  · have hkind := allPlain_forms h _ hmem
    simp only [List.mem_cons, not_or] at hkind
    exact hkind.2.2.1
  · rw [show t.kind = t.form.kind from rfl, List.mem_singleton.1 hmem]
    decide

theorem readsBack_three_halves : Number.ReadsBack 1.5 := ⟨⟨6755399441055744, -52, by decide +kernel⟩, by decide +kernel⟩

/-- Two signs in front of a number are written apart and read as two. -/
theorem Expr.parseExpression_text_signs :
    let e : Expr := .assign default (.ident default "x") .assign
      (.unary default .minus (.unary default .minus (.literal default (.number 1.5))))
    let tokens := tokenize (((lowerExpr ⟨{}, [], []⟩ e).run []).1.text 0) 0 0
    e.OperatorForm 3 ∧ 3 ≤ 300 ∧ (∀ t ∈ tokens, t.kind ≠ .error) ∧
      ∃ e', parseExpression tokens = .ok e' ∧ e'.bare = e.bare := by
  have h : Expr.OperatorForm 3 (.assign default (.ident default "x") .assign
      (.unary default .minus (.unary default .minus (.literal default (.number 1.5))))) :=
    .assign rfl (.ident ⟨by decide +kernel, by decide +kernel⟩)
      (.unary nofun (.unary nofun (.number readsBack_three_halves)))
  exact ⟨h, by decide, parseExpression_text h (by decide) ⟨{}, [], []⟩ [] 0 0 0⟩

end TypeStrip
