import TypeStrip.Proofs.Printing.RoundTrip

/-!
Properties of named objects: a name stands behind a point where it is a word, and otherwise quoted in
brackets. Either is read back as exactly that.
-/
namespace TypeStrip
open Token Grammar

/-! ### Quoted texts -/

/-- What is quoted is read as one string with that value and as long as the quoted text, whatever
follows it. -/
theorem tokenize_quoted (s rest : String) (file start : Nat) :
    let stop := start + Text.byteCount (Text.quoted s).toList
    tokenize (Text.quoted s ++ rest) file start =
      ⟨.string, ⟨start, stop, file⟩, s, false⟩ :: tokenize rest file stop := by
  have hq : (Text.quoted s).toList = '"' :: (s.toList.flatMap Text.quotedChar ++ ['"']) :=
    String.toList_ofList
  have hl : lexeme '"' ((s.toList.flatMap Text.quotedChar ++ ['"']) ++ rest.toList) =
      ⟨.string, s, (Text.quoted s).toList⟩ := by
    rw [List.append_assoc, ← stringLexeme_quoted s rest.toList]
    rfl
  rw [tokenize, String.toList_append, hq, List.cons_append, tokensFrom_eq,
    gap_reached (by decide) fun e => absurd e (by decide)]
  simp only [hl, hq, List.length_cons, Nat.add_sub_cancel, List.drop_left]
  rfl

namespace Grammar

variable {room k : Nat} {g : Inner} {fs gs hs : List Form} {a : Expr} {P Q : Expr → Prop}
  {substitution : List Token → Except ParseError Expr}

/-! ### Expressions without operators -/

theorem reads_leftHandSide (hstart : headKind fs ∈ primaryKinds)
    (hp : ∀ heritage, Reads room (primary g heritage) fs gs P)
    (hl : ∀ start a, P a → Reads room (extend (link g start true) a) gs hs Q) :
    Reads room (leftHandSide g) fs hs Q := by
  intro t ht
  rw [leftHandSide_eq ht hstart]
  exact (hp _).bind (fun a ha => hl _ a ha) t ht

/-- A chain of accesses and calls is a whole expression two levels further out. -/
theorem reads_expression_of_leftHandSide (hsound : SoundSubstitution substitution)
    (hstart : headKind fs ∈ primaryKinds) (hgs : headKind gs ∈ wholeEnds)
    (h : Reads room (leftHandSide (levels substitution k)) fs gs Q) :
    Reads (room + 2) (expression (levels substitution (k + 2))) fs gs Q := by
  have hends := mem_assignEnds _ hgs
  have hoperand := endsOperand_of_mem_assignEnds _ hends
  have hpower := kindPower_of_mem_assignEnds _ hends
  have hyield : headKind fs ≠ .kwYield := fun e => absurd (e ▸ hstart) (by decide)
  have hunary : Reads (room + 1) (levels substitution (k + 1)).unary fs gs Q :=
    .nested (reads_unaryBody hstart (reads_postfixExpr h hoperand))
  have hconditional : Reads (room + 1) (conditional (levels substitution (k + 1))) fs gs Q := by
    refine reads_conditional (fun c hc => ?_) fun e => question_notMem_assignEnds (e ▸ hends)
    rw [hc.remaining]
    exact reads_binaryUpTo hunary hoperand (.inl hpower)
  have hassign : Reads (room + 2) (levels substitution (k + 2)).assign fs gs Q :=
    .nested (reads_assignBody (keepsInner_levels hsound _) hyield hconditional fun target ht =>
      reads_assignRest_none hends ht)
  exact reads_expression hassign hgs

theorem reads_expression_string (hsound : SoundSubstitution substitution) (value : String)
    (hgs : headKind gs = .rBracket) :
    Reads (room + 2) (expression (levels substitution (k + 2))) (Literal.form (.string value) :: gs) gs
      fun e => ∃ s, e = .literal s (.string value) := by
  have hstart : headKind (Literal.form (.string value) :: gs) ∈ primaryKinds :=
    show Kind.string ∈ primaryKinds by decide
  refine reads_expression_of_leftHandSide hsound hstart (hgs ▸ by decide) ?_
  refine reads_leftHandSide hstart (fun heritage => reads_primary_string heritage value)
    fun start a ha => reads_extend_none (reads_link_none (hgs ▸ by decide) start) ha

/-! ### Properties of a name -/

variable {object name : String}

/-- An access to a member of a name, given what the access is read as. -/
theorem reads_leftHandSide_ident (ho : IsIdentifier object) {f : Form} (hf : f.kind ≠ .kwFunction)
    (h : ∀ s start, Reads room (link g start true (.ident s object)) (f :: fs) [] fun found =>
      ∃ b, found = some b ∧ Q b) :
    Reads room (leftHandSide g) (.of object :: f :: fs) [] Q := by
  refine reads_leftHandSide (headKind_ident ho _) (fun heritage => reads_primary_ident heritage ho hf) ?_
  rintro start _ ⟨s, rfl⟩
  exact reads_extend_once (h s start) fun _ _ => reads_link_none (by decide) start

theorem reads_leftHandSide_member (ho : IsIdentifier object) (hn : Text.isWord name = true) :
    Reads room (leftHandSide g) [.of object, .of ".", .of name] [] fun e =>
      ∃ s s' s'', e = .member s (.ident s' object) ⟨s'', name⟩ := by
  refine reads_leftHandSide_ident ho (by decide) fun s' start => ?_
  refine (reads_link_member hn start).mono fun found hfound => ?_
  obtain ⟨s, ⟨s'', _⟩, rfl, rfl⟩ := hfound
  exact ⟨_, rfl, s, s', s'', rfl⟩

theorem reads_leftHandSide_index (hsound : SoundSubstitution substitution) (ho : IsIdentifier object) :
    Reads (room + 2) (leftHandSide (levels substitution (k + 2)))
      [.of object, .of "[", Literal.form (.string name), .of "]"] [] fun e =>
      ∃ s s' s'', e = .index s (.ident s' object) (.literal s'' (.string name)) := by
  have hname (gs : List Form) (hgs : headKind gs = .rBracket) : Reads (room + 2)
      (expression (levels substitution (k + 2))) ([Literal.form (.string name)] ++ gs) gs fun e =>
        ∃ s, e = .literal s (.string name) := reads_expression_string hsound name hgs
  refine reads_leftHandSide_ident ho (by decide) fun s' start => ?_
  refine (reads_link_index hname start).mono fun found hfound => ?_
  obtain ⟨s, _, rfl, s'', rfl⟩ := hfound
  exact ⟨_, rfl, s, s', s'', rfl⟩

/-- A chain of accesses that all tokens are read as is the expression that they stand for. -/
theorem parseExpression_of_leftHandSide {tokens : List Token}
    (h : ∀ substitution, SoundSubstitution substitution →
      Reads (maxNesting - 2) (leftHandSide (levels substitution (maxNesting - 1))) fs [] Q)
    (hstart : headKind fs ∈ primaryKinds) (hfs : AllPlain fs)
    (ht : tokens.map Token.form = fs ++ [.end_]) : ∃ e, parseExpression tokens = .ok e ∧ Q e := by
  have hsound := soundSubstitution_upTo (templateDepth tokens)
  have hreads : Reads maxNesting (expression (grammar tokens)) fs [] Q :=
    reads_expression_of_leftHandSide hsound hstart (show Kind.eof ∈ wholeEnds by decide) (h _ hsound)
  exact parseExpression_of_reads hreads hfs ht

end Grammar

/-! ### Texts of properties -/

variable {object name : String} {depth file start : Nat}

theorem parseExpression_property_of_isWord (ho : IsIdentifier object) (hn : Text.isWord name = true) :
    ∃ s s' s'', parseExpression (tokenize ((Lowering.property object name).text depth) file start) =
      .ok (.member s (.ident s' object) ⟨s'', name⟩) := by
  have hform : (Expr.member default (.ident default object) ⟨default, name⟩).OperatorForm 1 :=
    .member hn (.ident ho)
  have hproperty : Lowering.property object name =
      (Expr.member default (.ident default object) ⟨default, name⟩).code := if_pos hn
  have hforms := map_form_tokenize hform depth file start
  rw [← hproperty] at hforms
  obtain ⟨e, he, s, s', s'', rfl⟩ := parseExpression_of_leftHandSide
    (fun _ _ => reads_leftHandSide_member ho hn) (headKind_ident ho _) (allPlain_forms hform) hforms
  exact ⟨s, s', s'', he⟩

theorem parseExpression_property_of_not_isWord (ho : IsIdentifier object)
    (hn : Text.isWord name = false) :
    ∃ s s' s'', parseExpression (tokenize ((Lowering.property object name).text depth) file start) =
      .ok (.index s (.ident s' object) (.literal s'' (.string name))) := by
  have hform : (Expr.index default (.ident default object)
      (.literal default (.string name))).OperatorForm 1 := .index (.ident ho) (.string name)
  have hproperty : Lowering.property object name =
      (Expr.index default (.ident default object) (.literal default (.string name))).code :=
    if_neg (by simp [hn])
  have hforms := map_form_tokenize hform depth file start
  rw [← hproperty] at hforms
  obtain ⟨e, he, s, s', s'', rfl⟩ := parseExpression_of_leftHandSide
    (fun _ hsound => reads_leftHandSide_index hsound ho) (headKind_ident ho _) (allPlain_forms hform)
    hforms
  exact ⟨s, s', s'', he⟩

/-- A quoted text is read as a string of that value that takes up the text, whatever follows it. A
property of a name is read as a member if its own name is read as one word, and otherwise as an index
by the string of its name. -/
theorem quoted_and_properties_read_back :
    (∀ s rest file start,
      let stop := start + Text.byteCount (Text.quoted s).toList
      tokenize (Text.quoted s ++ rest) file start =
        ⟨.string, ⟨start, stop, file⟩, s, false⟩ :: tokenize rest file stop) ∧
      ∀ object name depth file start, Lexes object.toList [⟨.identifier, object, false⟩] →
        let tokens := tokenize ((Lowering.property object name).text depth) file start
        let readAsWord := ∃ k : Kind, k.isWord = true ∧ Lexes name.toList [⟨k, name, false⟩]
        (readAsWord → ∃ s s' s'', parseExpression tokens = .ok (.member s (.ident s' object) ⟨s'', name⟩)) ∧
          (¬readAsWord → ∃ s s' s'',
            parseExpression tokens = .ok (.index s (.ident s' object) (.literal s'' (.string name)))) := by
  refine ⟨tokenize_quoted, fun object name depth file start ho => ?_⟩
  have ho := isIdentifier_iff_lexes.2 ho
  refine ⟨fun hn => parseExpression_property_of_isWord ho (isWord_iff_lexes.2 hn), fun hn => ?_⟩
  refine parseExpression_property_of_not_isWord ho (Bool.eq_false_iff.2 fun h => hn ?_)
  exact isWord_iff_lexes.1 h

/-- A reserved word stands behind a point, and what is no word in brackets. -/
theorem quoted_and_properties_read_back_exports :
    Lexes "exports".toList [⟨.identifier, "exports", false⟩] ∧
      (∃ s s' s'', parseExpression (tokenize ((Lowering.property "exports" "default").text 0) 0 0) =
        .ok (.member s (.ident s' "exports") ⟨s'', "default"⟩)) ∧
      ∃ s s' s'', parseExpression (tokenize ((Lowering.property "exports" "a-\"b").text 0) 0 0) =
        .ok (.index s (.ident s' "exports") (.literal s'' (.string "a-\"b"))) := by
  have hexports : Lexes "exports".toList [⟨.identifier, "exports", false⟩] :=
    isIdentifier_iff_lexes.1 ⟨by decide +kernel, by decide +kernel⟩
  obtain ⟨-, hproperty⟩ := quoted_and_properties_read_back
  refine ⟨hexports, (hproperty _ _ 0 0 0 hexports).1 (isWord_iff_lexes.1 (by decide +kernel)), ?_⟩
  exact (hproperty _ _ 0 0 0 hexports).2 fun h => absurd (isWord_iff_lexes.2 h) (by decide +kernel)

end TypeStrip
