import TypeStrip.Grammar.Class
import TypeStrip.Proofs.Strings.Tapes

/-! Names, patterns, types, functions and classes are read alike however strings are worded. -/
namespace TypeStrip.Grammar
open TypeStrip.Token (Kind)
open Reworded

variable {σ : String → String} {t : Tape} {g : Inner}

/-! ### Names and keys -/

/-- The text that is read off a token is reworded, whether the token is a string or not. -/
theorem Tape.Fits.value_reword (h : t.Fits σ)
    (hk : t.current.kind.givesText = true ∨ t.current.kind = .string) :
    (t.current.reword σ).value = σ t.current.value := by
  rcases hk with hk | hk
  · rw [Token.reword_of_ne_string (Token.ne_string_of_givesText hk), h.current_value hk]
  · exact if_pos hk

theorem Tape.Fits.name_reword (h : t.Fits σ)
    (hk : t.current.kind.givesText = true ∨ t.current.kind = .string) :
    (⟨(t.current.reword σ).span, (t.current.reword σ).value⟩ : Name) =
      Name.reword σ ⟨t.current.span, t.current.value⟩ := by
  rw [h.value_reword hk]
  rfl

theorem Cursor.givesText_of_atName {c : Cursor} (h : c.atName = true) :
    c.current.kind.givesText = true := by
  rw [Token.Kind.givesText,
    show (c.current.kind == .identifier || c.current.kind.isReserved) = true from h]
  rfl

theorem carries_identifier : Carries σ identifier identifier := fun _ =>
  .fits fun ht => .expect fun hk => .pure (ht.name_reword (.inl (by rw [hk]; rfl)))

theorem carries_anyName : Carries σ anyName anyName := fun _ =>
  .fits fun ht => .get <| .ite
    (fun h => .take (passable_of_atName h).2 <|
      .pure (ht.name_reword (.inl (Cursor.givesText_of_atName h))))
    fun _ => carries_complainFound _ _

/-- The grammar one level further in reads alike however strings are worded. -/
structure CarriesInner (σ : String → String) (g : Inner) : Prop where
  assign : Carries σ g.assign g.assign
  unary : Carries σ g.unary g.unary
  stmt : Carries σ g.stmt g.stmt
  type : Carries σ g.type g.type

theorem carries_key (hg : CarriesInner σ g) : Carries σ (key g) (key g) := by
  refine fun t => .fits fun ht => .get ?_
  simp only [Cursor.current_reword, Token.kind_reword, Cursor.atName_reword]
  split
  · rename_i hk
    have hk : t.current.kind = .string := hk
    exact .take (by rw [hk]; decide) (.pure (congrArg Key.string (ht.value_reword (.inr hk))))
  · rename_i hk
    have hk : t.current.kind = .number := hk
    refine .take (by rw [hk]; decide) ?_
    rw [Token.reword_of_ne_string (by rw [hk]; decide)]
    exact .pure rfl
  · refine .bind (carries_skip t) fun _ => .bind (hg.assign.withIn _) fun e => ?_
    exact .bind (.discard (carries_expect _)) fun _ => .pure rfl
  · exact .ite (fun _ => .bind (carries_anyName t) fun _ => .pure rfl) fun _ => carries_complain _ t

@[simp] theorem keyFollows_reword (c : Cursor) : keyFollows (c.reword σ) = keyFollows c := by
  rw [keyFollows, Cursor.sameLine_reword, Cursor.peek?_reword, Token.any_reword fun _ => rfl,
    keyFollows]

theorem carries_methodWords : Carries σ methodWords methodWords := by
  refine .get fun c => ?_
  simp only [keyFollows_reword, Cursor.atWord_reword]
  exact .when carries_skip (.ite (.bind (carries_accept _) fun _ => .pure rfl) (.pure rfl))

/-! ### Patterns -/

section
variable (hg : CarriesInner σ g)
include hg

theorem carries_defaulted (p : Pattern) :
    Carries σ (defaulted g p) (defaulted g (reword σ p)) := by
  refine .bind (.after _ (hg.assign.withIn _)) fun e => ?_
  cases e with
  | none => exact .pure rfl
  | some e =>
    exact .pure (by simp [reword])

variable {pattern : Parser Pattern} (hp : Carries σ pattern pattern)
include hp

omit hg in
theorem carries_restPattern : Carries σ (restPattern pattern) (restPattern pattern) :=
  .after _ <| .bind hp fun _ => .get fun _ => .when (carries_complain _) (.pure rfl)

theorem carries_arrayPattern : Carries σ (arrayPattern g pattern) (arrayPattern g pattern) := by
  refine .bind carries_here fun start => .bind (.discard (carries_expect _)) fun _ => ?_
  refine .bind (.collect ?_) fun ps => .bind (carries_restPattern hp) fun rest => ?_
  · refine .get fun _ => .ite (.pure rfl) (.bind (carries_accept _) fun _ => ?_)
    refine .ite (.pure rfl) (.bind hp fun p => .bind (carries_defaulted hg p) fun p => ?_)
    refine .get fun _ => ?_
    exact .otherwise (.discard (carries_expect _)) (.pure rfl)
  · refine .bind (.discard (carries_expect _)) fun _ => .bind (carries_since _) fun _ => .pure ?_
    simp [reword]

theorem carries_patternField : Carries σ (patternField g pattern) (patternField g pattern) := by
  refine .bind (carries_key hg) fun k => .bind (carries_accept _) fun _ => .ite ?_ ?_
  · exact .bind hp fun p => .bind (carries_defaulted hg p) fun p => .pure rfl
  · cases k with
    | ident name => exact .bind (carries_defaulted hg (.ident name.span name)) fun p => .pure rfl
    | _ => exact carries_complain _

theorem carries_objectPattern : Carries σ (objectPattern g pattern) (objectPattern g pattern) := by
  refine .bind carries_here fun start => .bind (.discard (carries_expect _)) fun _ => ?_
  refine .bind (.collect ?_) fun fs => .bind (carries_restPattern hp) fun rest => ?_
  · refine .get fun _ => .ite (.pure rfl) (.bind (carries_patternField hg hp) fun f => ?_)
    exact .get fun _ => .otherwise (.discard (carries_expect _)) (.pure rfl)
  · refine .bind (.discard (carries_expect _)) fun _ => .bind (carries_since _) fun _ => .pure ?_
    simp [reword]

end

section
variable (hg : CarriesInner σ g)
include hg

theorem carries_patternUpTo (fuel : Nat) : Carries σ (patternUpTo g fuel) (patternUpTo g fuel) := by
  induction fuel with
  | zero => exact carries_complain _
  | succ fuel ih =>
    refine .get fun c => ?_
    simp only [Cursor.current_reword, Token.kind_reword]
    split
    · exact .bind carries_identifier fun _ => .pure rfl
    · exact carries_arrayPattern hg ih
    · exact carries_objectPattern hg ih
    · exact carries_complainFound _

theorem carries_pattern : Carries σ (pattern g) (pattern g) := by
  refine .get fun c => ?_
  rw [Cursor.remaining_reword]
  exact carries_patternUpTo hg _

end

/-! ### Types -/

section
variable (hg : CarriesInner σ g)
include hg

theorem carries_typeArguments : Carries σ (typeArguments g) (typeArguments g) :=
  .bind (.discard (carries_expect _)) fun _ => .bind (.sepBy1 _ hg.type) fun _ =>
    .bind carries_closeAngle fun _ => .pure rfl

omit hg in
theorem carries_skipVariance : Carries σ skipVariance skipVariance := by
  refine .discard <| .collect <| .get fun c => ?_
  simp only [Cursor.at_reword, Cursor.atWord_reword, Cursor.sees_reword]
  exact .ite (.bind carries_skip fun _ => .pure rfl) (.pure rfl)

theorem carries_typeParam : Carries σ (typeParam g) (typeParam g) := by
  refine .bind carries_skipVariance fun _ => .bind carries_identifier fun name => ?_
  refine .bind (.after _ hg.type) fun bound => .bind (.after _ hg.type) fun fallback => .pure ?_
  simp [reword]

theorem carries_typeParams : Carries σ (typeParams g) (typeParams g) := by
  refine .bind (.discard (carries_expect _)) fun _ => ?_
  refine .bind (.commaSeparated _ (carries_typeParam hg)) fun ps => ?_
  refine .bind carries_closeAngle fun _ => ?_
  simp only [show (reword σ ps).isEmpty = ps.isEmpty by cases ps <;> rfl]
  exact .when (carries_complain _) (.pure rfl)

theorem carries_optionalTypeParams : Carries σ (optionalTypeParams g) (optionalTypeParams g) :=
  .get fun _ => .ite (carries_typeParams hg) (.pure rfl)

theorem carries_typeOrPredicate : Carries σ (typeOrPredicate g) (typeOrPredicate g) := by
  refine .bind carries_here fun start => .get fun c => ?_
  simp only [Cursor.atWord_reword, Cursor.seesAny_reword, Cursor.seesWord_reword]
  refine .ite ?_ (.ite ?_ hg.type)
  · refine .bind carries_skip fun _ => .bind carries_skip fun _ => ?_
    refine .bind (carries_acceptWord _) fun _ => .when (.discard hg.type) ?_
    exact .bind (carries_since _) fun _ => .pure rfl
  · refine .bind carries_skip fun _ => .bind carries_skip fun _ => ?_
    exact .bind (.discard hg.type) fun _ => .bind (carries_since _) fun _ => .pure rfl

theorem carries_typeParamPattern : Carries σ (typeParamPattern g) (typeParamPattern g) := by
  have omitted : Carries σ (do discard <| pattern g; return Pattern.omitted)
      (do discard <| pattern g; return Pattern.omitted) :=
    .bind (.discard (carries_pattern hg)) fun _ => .pure rfl
  have named {t : Tape} (hk : t.current.kind.givesText = true) (he : t.current.kind ≠ .eof) :
      CarriesAt σ t
        (if t.cursor.seesAny 1 [.colon, .question, .comma, .rParen] then do
          let u ← take
          return Pattern.ident u.span ⟨u.span, u.value⟩
        else complain .expectedParameterName)
        (if t.cursor.seesAny 1 [.colon, .question, .comma, .rParen] then do
          let u ← take
          return Pattern.ident u.span ⟨u.span, u.value⟩
        else complain .expectedParameterName) :=
    .fits fun ht => .ite
      (fun _ => .take he (.pure (congrArg (Pattern.ident _) (ht.name_reword (.inl hk)))))
      fun _ => carries_complain _ _
  refine fun t => .get ?_
  simp only [Cursor.current_reword, Token.kind_reword, Cursor.seesAny_reword]
  split
  · exact omitted t
  · exact omitted t
  · rename_i hk
    have hk : t.current.kind = .identifier := hk
    exact named (by rw [hk]; rfl) (by rw [hk]; decide)
  · rename_i hk
    have hk : t.current.kind = .kwThis := hk
    exact named (by rw [hk]; decide) (by rw [hk]; decide)
  · exact carries_complain _ t

theorem carries_signatureParams : Carries σ (signatureParams g) (signatureParams g) := by
  refine .commaSeparated _ <| .bind (carries_accept _) fun _ => ?_
  refine .bind (carries_typeParamPattern hg) fun p => .bind (carries_accept _) fun _ => ?_
  refine .bind (.after _ hg.type) fun type => .pure ?_
  simp [reword]

theorem carries_signature : Carries σ (signature g) (signature g) := by
  refine .bind (carries_optionalTypeParams hg) fun _ => ?_
  refine .bind (.discard (carries_expect _)) fun _ => ?_
  refine .bind (carries_signatureParams hg) fun ps => ?_
  refine .bind (.discard (carries_expect _)) fun _ => ?_
  refine .bind (.after _ (carries_typeOrPredicate hg)) fun _ => .pure ?_
  simp [reword]

theorem carries_functionType (start : Span) :
    Carries σ (functionType g start) (functionType g start) := by
  refine .bind (carries_optionalTypeParams hg) fun _ => ?_
  refine .bind (.discard (carries_expect _)) fun _ => ?_
  refine .bind (carries_signatureParams hg) fun ps => ?_
  refine .bind (.discard (carries_expect _)) fun _ => ?_
  refine .bind (.discard (carries_expect _)) fun _ => ?_
  refine .bind (carries_typeOrPredicate hg) fun returns => .pure ?_
  simp [reword]

theorem carries_indexSignature : Carries σ (indexSignature g) (indexSignature g) := by
  refine .bind carries_identifier fun _ => .bind (.discard (carries_expect _)) fun _ => ?_
  refine .bind hg.type fun _ => .bind (.discard (carries_expect _)) fun _ => ?_
  exact .bind (.discard (carries_expect _)) fun _ => .bind hg.type fun _ => .pure rfl

omit hg in
@[simp] theorem Cursor.atIndexSignature_reword (c : Cursor) :
    (c.reword σ).atIndexSignature = c.atIndexSignature := by
  simp [atIndexSignature]

theorem carries_typeMember : Carries σ (typeMember g) (typeMember g) := by
  refine .bind carries_here fun start => .get fun c => ?_
  simp only [Cursor.atWord_reword, Cursor.seesAny_reword]
  refine .when carries_skip (.get fun c => ?_)
  rw [Cursor.atIndexSignature_reword]
  refine .ite ?_ (.get fun c => ?_)
  · refine .bind carries_skip fun _ => .bind (carries_indexSignature hg) fun _ => ?_
    exact .bind (carries_since _) fun _ => .pure rfl
  · simp only [Cursor.at_reword, Cursor.seesAny_reword]
    refine .when carries_skip (.get fun c => .ite ?_ ?_)
    · exact .bind (carries_signature hg) fun _ => .bind (carries_since _) fun _ => .pure rfl
    · refine .bind (.discard carries_methodWords) fun _ => .bind (carries_key hg) fun k => ?_
      refine .bind (carries_accept _) fun _ => .get fun c => .ite ?_ ?_
      · exact .bind (carries_signature hg) fun f => .bind (carries_since _) fun _ => .pure rfl
      · refine .bind (.after _ hg.type) fun type => .bind (carries_since _) fun _ => .pure ?_
        simp [reword]

theorem carries_typeMembers : Carries σ (typeMembers g) (typeMembers g) := by
  refine .bind (.discard (carries_expect _)) fun _ => .bind (.collectUntil _ ?_) fun ms => ?_
  · refine .bind (carries_typeMember hg) fun m => .bind (carries_accept _) fun _ => ?_
    exact .otherwise (.discard (carries_accept _)) (.pure rfl)
  · exact .bind (.discard (carries_expect _)) fun _ => .pure rfl

omit hg in
theorem carries_skipSign : Carries σ skipSign skipSign :=
  .bind (carries_accept _) fun _ => .ite (.pure rfl) (.discard (carries_accept _))

theorem carries_mappedType : Carries σ (mappedType g) (mappedType g) := by
  refine .bind carries_here fun start => .bind (.discard (carries_expect _)) fun _ => ?_
  refine .bind carries_skipSign fun _ => .bind (.discard (carries_acceptWord _)) fun _ => ?_
  refine .bind (.discard (carries_expect _)) fun _ => .bind carries_identifier fun _ => ?_
  refine .bind (.discard (carries_expect _)) fun _ => .bind hg.type fun _ => ?_
  refine .bind (carries_acceptWord _) fun _ => .when (.discard hg.type) ?_
  refine .bind (.discard (carries_expect _)) fun _ => .bind carries_skipSign fun _ => ?_
  refine .bind (.discard (carries_accept _)) fun _ => .bind (.after _ hg.type) fun value => ?_
  refine .bind (carries_accept _) fun _ => .otherwise (.discard (carries_accept _)) ?_
  refine .bind (.discard (carries_expect _)) fun _ => .bind (carries_since _) fun _ => .pure ?_
  simp [reword]

theorem carries_tupleElement : Carries σ (tupleElement g) (tupleElement g) := by
  refine .bind (.discard (carries_accept _)) fun _ => .get fun c => ?_
  simp only [Cursor.at_reword, Cursor.sees_reword]
  refine .ite_of ?_ fun h => ?_
  · exact .bind hg.type fun _ => .bind (.discard (carries_accept _)) fun _ => .pure rfl
  · refine .bind carries_skip fun _ => .bind (.discard (carries_accept _)) fun _ => ?_
    exact .bind (.discard (carries_expect _)) fun _ => h

theorem carries_typeReference : Carries σ (typeReference g) (typeReference g) := by
  refine .bind carries_here fun start => .bind carries_identifier fun _ => ?_
  refine .bind (.collect (.after _ carries_anyName)) fun _ => .get fun c => ?_
  refine .either (carries_typeArguments hg) (.pure rfl) fun args => ?_
  refine .bind (carries_since _) fun _ => .pure ?_
  simp [reword]

omit hg in
theorem carries_literalType {span : Span} {value value' : LiteralType}
    (h : value' = value.reword σ) :
    Carries σ (literalType span value) (literalType span value') := by
  rw [h]
  exact .bind carries_skip fun _ => .pure rfl

omit hg in
theorem Tape.kind_advance_of_sees {kind : Kind} (hk : t.current.kind ≠ .eof)
    (hs : t.cursor.sees 1 kind = true) : t.advance.current.kind = kind := by
  cases hf : t.following with
  | nil =>
    rw [Cursor.sees, Cursor.peek?, show t.cursor.following = [] from hf] at hs
    cases hs
  | cons next rest =>
    rw [Cursor.sees, Cursor.peek?, show t.cursor.following = next :: rest from hf] at hs
    rw [advance_eq hk hf]
    exact beq_iff_eq.1 hs

theorem carries_primaryType : Carries σ (primaryType g) (primaryType g) := by
  have word {t u : TypeExpr} (h : u = t.reword σ) :
      Carries σ (do skip; return t) (do skip; return u) :=
    .bind carries_skip fun _ => .pure h
  refine fun t => .fits fun ht => .get ?_
  by_cases hs : t.cursor.current.kind = .string
  · simp only [Cursor.current_reword, Token.kind_reword, hs]
    exact carries_literalType (congrArg LiteralType.string (ht.value_reword (.inr hs))) t
  have hname (hk : t.cursor.current.kind.givesText = true) :
      TypeExpr.reference t.current.span [⟨t.current.span, t.current.value⟩] [] =
        (TypeExpr.reference t.current.span [⟨t.current.span, t.current.value⟩] []).reword σ :=
    congrArg (TypeExpr.reference _ [⟨_, ·⟩] []) (ht.current_value hk).symm
  rw [Cursor.current_reword_of_ne_string σ _ hs]
  simp only [Cursor.sees_reword]
  split
  · split
    · exact Carries.ite (carries_typeReference hg) (word rfl) t
    · exact carries_typeReference hg t
  · exact word rfl t
  · exact word rfl t
  · rename_i hk
    exact word (hname (by rw [hk]; decide)) t
  · rename_i hk
    exact word (hname (by rw [hk]; decide)) t
  · refine .bind (carries_skip t) fun _ => .get fun c => .when (carries_complain _) ?_
    exact .bind (.sepBy1 _ carries_anyName) fun path => .bind (carries_since _) fun _ => .pure rfl
  · rename_i hk
    exact absurd hk hs
  · rename_i hk
    refine carries_literalType (congrArg LiteralType.string (ht.current_value ?_).symm) t
    rw [show t.current.kind = _ from hk]
    decide
  · exact carries_literalType rfl t
  · exact carries_literalType rfl t
  · exact carries_literalType rfl t
  · rename_i hk
    refine .ite (fun hs => .skip ?_) fun _ => carries_complainFound _ t
    have hn := Tape.kind_advance_of_sees (by rw [show t.current.kind = _ from hk]; decide) hs
    refine .take (by rw [hn]; decide) ?_
    rw [Token.reword_of_ne_string (by rw [hn]; decide)]
    exact .bind (carries_since _ _) fun _ => .pure rfl
  · refine .bind (carries_skip t) fun _ => .bind hg.type fun _ => ?_
    exact .bind (.discard (carries_expect _)) fun _ => .bind (carries_since _) fun _ => .pure rfl
  · refine .bind (carries_skip t) fun _ => ?_
    refine .bind (.commaSeparated _ (carries_tupleElement hg)) fun _ => ?_
    refine .bind (.discard (carries_expect _)) fun _ => .bind (carries_since _) fun _ => .pure ?_
    simp [reword]
  · refine .bind (Carries.attempt (carries_mappedType hg) t) fun m => ?_
    cases m with
    | some m => exact .pure rfl
    | none =>
      refine .bind (carries_typeMembers hg) fun _ => .bind (carries_since _) fun _ => .pure ?_
      simp [reword]
  · exact carries_complainFound _ t

theorem carries_bracketedType (start : Span) (t : TypeExpr) :
    Carries σ (bracketedType g start t) (bracketedType g start (reword σ t)) := by
  refine .get fun c => .ite (.pure rfl) (.bind carries_skip fun _ => ?_)
  refine .bind (carries_accept _) fun _ => .ite (.bind (carries_since _) fun _ => .pure rfl) ?_
  refine .bind hg.type fun _ => .bind (.discard (carries_expect _)) fun _ => ?_
  exact .bind (carries_since _) fun _ => .pure rfl

theorem carries_postfixType : Carries σ (postfixType g) (postfixType g) :=
  .bind carries_here fun start => .bind (carries_primaryType hg) fun t =>
    .extend (carries_bracketedType hg start) t

omit hg in
@[simp] theorem operandFollows_reword (c : Cursor) :
    operandFollows (c.reword σ) = operandFollows c := by
  rw [operandFollows, Cursor.peek?_reword, Token.any_reword fun _ => rfl, operandFollows]

theorem carries_typeOperatorUpTo (fuel : Nat) :
    Carries σ (typeOperatorUpTo g fuel) (typeOperatorUpTo g fuel) := by
  induction fuel with
  | zero => exact carries_complain _
  | succ fuel ih =>
    refine .bind carries_here fun start => .get fun c => ?_
    simp only [Cursor.at_reword, operandFollows_reword, Cursor.current_reword]
    by_cases h : (c.at_ .identifier && operandFollows c) = true
    · have hk : c.current.kind = .identifier :=
        beq_iff_eq.1 (Bool.and_eq_true_iff.1 (Bool.and_eq_true_iff.1 h).1).2
      rw [if_pos h, if_pos h, Token.reword_of_ne_string (by rw [hk]; decide)]
      split
      · refine .bind carries_skip fun _ => .bind ih fun operand => .pure ?_
        simp [reword]
      · exact .bind carries_skip fun _ => ih
      · exact .bind carries_skip fun _ => ih
      · exact .bind carries_skip fun _ => .bind carries_identifier fun _ => .pure rfl
      · exact carries_postfixType hg
    · rw [if_neg h, if_neg h]
      exact carries_postfixType hg

theorem carries_typeOperator : Carries σ (typeOperator g) (typeOperator g) := by
  refine .get fun c => ?_
  rw [Cursor.remaining_reword]
  exact carries_typeOperatorUpTo hg _

omit hg in
theorem carries_operatorChain {operand : Parser TypeExpr} (operator : Kind)
    {make : Span → List TypeExpr → TypeExpr}
    (hm : ∀ s ts, make s (reword σ ts) = reword σ (make s ts)) (ho : Carries σ operand operand) :
    Carries σ (operatorChain operator operand make) (operatorChain operator operand make) := by
  refine .bind carries_here fun start => .bind (.discard (carries_accept _)) fun _ => ?_
  refine .bind ho fun _ => .get fun c => .ite (.pure rfl) ?_
  refine .bind (.collect (.after _ ho)) fun _ => ?_
  exact .bind (carries_since _) fun _ => .pure (hm _ (_ :: _))

theorem carries_unionType : Carries σ (unionType g) (unionType g) :=
  carries_operatorChain _ (fun _ _ => by simp [reword]) <|
    carries_operatorChain _ (fun _ _ => by simp [reword]) (carries_typeOperator hg)

theorem carries_typeBody : Carries σ (typeBody g) (typeBody g) := by
  refine .bind carries_here fun start => .get fun c => ?_
  simp only [Cursor.atWord_reword, Cursor.sees_reword]
  refine .when carries_skip ?_
  refine .bind (carries_accept _) fun _ => .ite (carries_functionType hg _) (.get fun c => ?_)
  refine .ite (carries_functionType hg _) (.get fun c => ?_)
  refine .ite_of ?_ fun h => .bind (.attempt (carries_functionType hg _)) fun f => ?_
  · refine .bind (carries_unionType hg) fun _ => .get fun c => .ite ?_ (.pure rfl)
    refine .bind carries_skip fun _ => .bind (carries_unionType hg) fun _ => ?_
    refine .bind (.discard (carries_expect _)) fun _ => .bind hg.type fun _ => ?_
    refine .bind (.discard (carries_expect _)) fun _ => .bind hg.type fun no => .pure ?_
    simp [reword]
  · cases f with
    | some f => exact .pure rfl
    | none => exact h

end

/-! ### Functions -/

@[simp] theorem reword_access? (a : Option Access) : reword σ a = a := by
  cases a <;> rfl

@[simp] theorem reword_accesses (as : List (Option Access)) : reword σ as = as :=
  (List.map_congr_left fun a _ => reword_access? a).trans (List.map_id' as)

theorem carries_propertyWord : Carries σ propertyWord propertyWord := by
  refine .get fun c => ?_
  by_cases hk : c.current.kind = .string
  · have hat : c.at_ .identifier = false := by simp [Cursor.at_, hk]
    simp only [Cursor.at_reword, hat, Bool.false_and]
    exact .pure rfl
  · simp only [Cursor.current_reword, Token.reword_of_ne_string hk, Cursor.at_reword,
      Cursor.seesAny_reword]
    refine .ite (.pure rfl) (.bind carries_skip fun _ => .pure ?_)
    exact (congrArg some (reword_access? _)).symm

section
variable (hg : CarriesInner σ g)
include hg

theorem carries_param : Carries σ (param g) (param g) := by
  refine .unnoticed fun hthis => .bind (.collect carries_propertyWord) fun words => ?_
  refine .bind (carries_accept _) fun isRest => ?_
  rw [reword_accesses]
  refine .get fun c => .eitherStep carries_skip (fun _ => .pure ?_) (carries_pattern hg) fun p => ?_
  · simp [reword, Name.reword, hthis]
  · refine .bind (carries_accept _) fun _ => .bind (.after _ hg.type) fun type => ?_
    refine .bind (carries_defaulted hg p) fun p => .pure ?_
    simp [reword]

theorem carries_params : Carries σ (params g) (params g) :=
  .bind (.discard (carries_expect _)) fun _ =>
    .bind (.withIn _ (.commaSeparated _ (carries_param hg))) fun _ =>
      .bind (.discard (carries_expect _)) fun _ => .pure rfl

theorem carries_returnType : Carries σ (returnType g) (returnType g) :=
  .after _ (carries_typeOrPredicate hg)

theorem carries_block : Carries σ (block g) (block g) := by
  refine .bind carries_here fun start => .bind (.discard (carries_expect _)) fun _ => ?_
  refine .bind (.withIn _ (.collectUntil _ hg.stmt)) fun stmts => ?_
  exact .bind (.discard (carries_expect _)) fun _ => .bind (carries_since _) fun _ => .pure rfl

theorem carries_blockBody : Carries σ (blockBody g) (blockBody g) := by
  refine .bind (carries_block hg) fun r => .pure ?_
  simp [reword]

theorem carries_functionRest (head : FunctionHead) (mayLackBody : Bool) :
    Carries σ (functionRest g head mayLackBody)
      (functionRest g { head with name := reword σ head.name } mayLackBody) := by
  refine .bind (carries_optionalTypeParams hg) fun typeParams => ?_
  refine .bind (carries_params hg) fun ps => .bind (carries_returnType hg) fun returns => ?_
  have done (body : Body) : Carries σ
      (pure (Func.mk head.name typeParams ps returns body head.isAsync head.isGenerator
        head.isDeclare))
      (pure (Func.mk (reword σ head.name) (reword σ typeParams) (reword σ ps) (reword σ returns)
        (reword σ body) head.isAsync head.isGenerator head.isDeclare)) :=
    .pure (by simp [reword])
  refine .get fun c => .ite (.bind (carries_blockBody hg) done) (.ite ?_ ?_)
  · exact .bind carries_endStatement fun _ => done .absent
  · exact .bind (carries_complain _) done

theorem carries_function (isAsync isDeclare mayLackBody : Bool) :
    Carries σ (function g isAsync isDeclare mayLackBody)
      (function g isAsync isDeclare mayLackBody) := by
  refine .bind (.discard (carries_expect _)) fun _ => .bind (carries_accept _) fun isGenerator => ?_
  refine .get fun c => .either (.map carries_identifier fun _ => rfl) (.pure rfl) fun name => ?_
  exact carries_functionRest hg ⟨name, isAsync, isGenerator, isDeclare⟩ mayLackBody

/-! ### Classes -/

omit hg in
@[simp] theorem Cursor.atMemberWord_reword (c : Cursor) :
    (c.reword σ).atMemberWord = c.atMemberWord := by
  by_cases hk : c.current.kind = .string
  · simp [atMemberWord, at_, hk, show (Kind.string == Kind.identifier) = false from rfl]
  · simp [atMemberWord, Token.reword_of_ne_string hk]

omit hg in
theorem carries_modifiers (isDeclare : Bool) :
    Carries σ (modifiers isDeclare) (modifiers isDeclare) := by
  refine .extend (fun mods t => .get ?_) _
  rw [Cursor.atMemberWord_reword]
  refine .ite (fun h => ?_) fun _ => .pure rfl
  simp only [Cursor.atMemberWord, Bool.and_eq_true] at h
  have hk : t.current.kind = .identifier := kind_of_at_ h.1.1.1
  refine .take (by rw [hk]; decide) ?_
  rw [Token.reword_of_ne_string (by rw [hk]; decide)]
  exact .pure rfl

theorem carries_keyedMember (start : Span) (mods : Modifiers) :
    Carries σ (keyedMember g start mods) (keyedMember g start mods) := by
  refine .bind carries_methodWords fun words => .bind (carries_key hg) fun k => ?_
  refine .bind (carries_accept _) fun _ => .bind (.discard (carries_accept _)) fun _ => ?_
  refine .get fun c => .ite ?_ (.when (carries_complain _) ?_)
  · refine .bind (carries_functionRest hg ⟨none, _, _, _⟩ _) fun f => ?_
    exact .bind (carries_since _) fun _ => .pure rfl
  · refine .bind (.after _ hg.type) fun type => .bind (.after _ hg.assign) fun init => ?_
    refine .bind carries_endStatement fun _ => .bind (carries_since _) fun _ => .pure ?_
    simp [reword]

theorem carries_classMember (isDeclare : Bool) :
    Carries σ (classMember g isDeclare) (classMember g isDeclare) := by
  refine .bind carries_here fun start => .bind (carries_modifiers _) fun mods => .get fun c => ?_
  simp only [Cursor.at_reword, Cursor.atIndexSignature_reword, Cursor.atWord_reword,
    Cursor.sees_reword]
  refine .when (carries_complain _) (.ite ?_ (.ite ?_ (carries_keyedMember hg _ _)))
  · refine .bind carries_skip fun _ => .bind (carries_indexSignature hg) fun _ => ?_
    exact .bind carries_endStatement fun _ => .bind (carries_since _) fun _ => .pure rfl
  · refine .bind carries_skip fun _ => ?_
    refine .bind (carries_functionRest hg { isDeclare := mods.isDeclare } _) fun f => ?_
    exact .bind (carries_since _) fun _ => .pure rfl

theorem carries_typeList : Carries σ (typeList g) (typeList g) := .sepBy1 _ hg.type

omit hg in
theorem filterMap_reword {α : Type} [Reworded α] (as : List (Option α)) :
    (reword σ as).filterMap id = reword σ (as.filterMap id) := by
  show (as.map (Option.map (reword σ))).filterMap id = (as.filterMap id).map (reword σ)
  rw [List.filterMap_map, List.map_filterMap]
  rfl

theorem carries_classRest {heritage : Parser Expr}
    (hh : Carries σ heritage heritage) (isAbstract isDeclare : Bool) :
    Carries σ (classRest g heritage isAbstract isDeclare)
      (classRest g heritage isAbstract isDeclare) := by
  refine .bind (.discard (carries_expect _)) fun _ => .get fun c => ?_
  simp only [Cursor.at_reword, Cursor.atWord_reword]
  refine .either (.map carries_identifier fun _ => rfl) (.pure rfl) fun name => ?_
  refine .bind (carries_optionalTypeParams hg) fun typeParams => .bind (.after _ hh) fun base => ?_
  refine .get fun c => ?_
  rw [show (reword σ base).isSome = base.isSome by cases base <;> rfl]
  refine .either (carries_typeArguments hg) (.pure rfl) fun baseArgs => ?_
  refine .bind (carries_acceptWord _) fun _ => ?_
  refine .either (carries_typeList hg) (.pure rfl) fun interfaces => ?_
  refine .bind (.discard (carries_expect _)) fun _ => .bind (.collectUntil _ ?_) fun ms => ?_
  · refine .bind (carries_accept _) fun _ => .ite (.pure rfl) ?_
    exact .bind (.withIn _ (carries_classMember hg _)) fun _ => .pure rfl
  · refine .bind (.discard (carries_expect _)) fun _ => .pure ?_
    rw [filterMap_reword]
    simp [reword]

end

end TypeStrip.Grammar
