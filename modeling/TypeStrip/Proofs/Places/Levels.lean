import TypeStrip.Proofs.Grammar.Levels
import TypeStrip.Proofs.Places.Statements

/-! Whole expressions are located, through all levels of nesting and all depths of templates. -/
namespace TypeStrip.Grammar
open Outlined

/-! ### Tapes at their ends -/

namespace Tape
variable {S : Source} {stop : Nat} {t t' : Tape}

theorem ofTokens_eq {start : Nat} {first : Token} {rest : List Token}
    (h : Token.Follow S stop start (first :: rest)) :
    Tape.ofTokens (first :: rest) = { passed := [], current := first, following := rest } := by
  have hlast : (first :: rest).getLast?.any (·.kind == .eof) = true := by
    induction rest generalizing start first with
    | nil =>
      cases h with
      | last _ hk => exact beq_iff_eq.2 hk
      | cons _ _ _ h => cases h
    | cons next rest ih =>
      rw [List.getLast?_cons_cons]
      exact ih h.tail
  rw [Tape.ofTokens]
  simp only [hlast, if_true]

/-- The tape of tokens that lie one after the other. -/
theorem lies_ofTokens {start : Nat} {tokens : List Token} (h : Token.Follow S stop start tokens) :
    (Tape.ofTokens tokens).Lies S stop ∧ (Tape.ofTokens tokens).passed = [] ∧
      (Tape.ofTokens tokens).tokens = tokens ∧ start ≤
        (Tape.ofTokens tokens).current.span.start := by
  cases tokens with
  | nil => cases h
  | cons first rest =>
    rw [ofTokens_eq h]
    exact ⟨⟨⟨start, h⟩, by simp⟩, rfl, rfl, h.head.2⟩

/-- Moves do not take malformed tokens away. -/
theorem Reaches.mem_tokens (h : t.Reaches t') {u : Token} (hu : u ∈ t.tokens)
    (he : u.kind = .error) :
    u ∈ t'.tokens := by
  induction h with
  | refl => exact hu
  | advance _ ih => rwa [tokens_advance]
  | @splitAngle t' kind value _ ha ih =>
    have hne : u ≠ t'.current := by
      rintro rfl
      rw [he] at ha
      cases ha
    simp only [Tape.tokens, List.mem_append, List.mem_cons] at ih ⊢
    exact ih.imp_right fun h => .inr (h.resolve_left hne)

/-- Nothing follows the end. -/
theorem Lies.following_of_eof (h : t.Lies S stop) (hk : t.current.kind = .eof) :
    t.following = [] := by
  obtain ⟨start, hahead⟩ := h.ahead
  revert hahead
  generalize t.following = rest
  intro hahead
  cases hahead with
  | last => rfl
  | cons _ hne => exact absurd hk hne

/-- A tape that reaches the end without passing a malformed token has none, and all tokens but the
end are passed. -/
theorem sound_of_eof (ht : t.Lies S stop) (hp : t.passed = []) (hr : t.Reaches t')
    (hs : t.PassesSound t') (hk : t'.current.kind = .eof) :
    (∀ u ∈ t.tokens, u.kind ≠ .error) ∧ t'.position + 1 = t.tokens.length := by
  have hfollowing := (ht.reaches hr).following_of_eof hk
  refine ⟨fun u hu he => ?_, ?_⟩
  · have hmem := hr.mem_tokens hu he
    rw [Tape.tokens, hfollowing, List.mem_append, List.mem_singleton, List.mem_reverse] at hmem
    rcases hmem with hmem | rfl
    · rcases hs u hmem with hmem | hne
      · rw [hp] at hmem
        cases hmem
      · exact hne he
    · rw [hk] at he
      cases he
  · rw [← hr.rewindsTo.length, Tape.tokens, hfollowing]
    simp [Tape.position]

end Tape

/-! ### Levels -/

section
variable {S : Source} {stop : Nat}

theorem locatesInner_outward {g : Inner} (hg : LocatesInner S stop g) :
    LocatesInner S stop g.outward where
  assign := (locates_assignBody hg).nested
  unary := (locates_unaryBody hg).nested
  stmt := (locates_stmtBody hg).nested
  type := (locates_typeBody hg).nested
  substitution := hg.substitution

/-- The grammar locates what it reads on every level, by induction on the number of levels. -/
theorem locatesInner_levels {substitution : List Token → Except ParseError Expr}
    (hs : LocatesSubstitution S substitution) (n : Nat) :
    LocatesInner S stop (levels substitution n) := by
  induction n with
  | zero => exact ⟨fun _ => .complain _, fun _ => .complain _, fun _ => .complain _, fun _ =>
      .complain _, hs⟩
  | succ n ih => exact locatesInner_outward ih

theorem locates_wholeExpression {g : Inner} (hg : LocatesInner S stop g) :
    Locates S stop (wholeExpression g) := fun t =>
  .bind (locates_expression hg t) fun _ _ he => .get <| .check (fun _ => .complainFound _) fun _ =>
    .kept t.current.span he (List.subset_append_left ..)

end

/-! ### Expressions as a whole -/

theorem eof_of_wholeExpression {g : Inner} {t t' : Tape} {e : Expr}
    (h : wholeExpression g t = .ok e t') :
    t'.current.kind = .eof := by
  obtain ⟨e', u, -, h⟩ := Parser.bind_eq_ok.1 h
  obtain ⟨c, v, hc, h⟩ := Parser.bind_eq_ok.1 h
  cases hc
  split at h
  · obtain ⟨_, _, hfound, -⟩ := Parser.bind_eq_ok.1 h
    cases hfound
  · rename_i hend
    cases h
    rw [Bool.not_eq_true', Bool.not_eq_false] at hend
    exact beq_iff_eq.1 hend

/-- An expression that is read up to the end is read whole. -/
theorem readsToEnd_of_wholeExpression {S : Source} {least most : Nat} {tokens : List Token}
    {fuel : Nat} {t : Tape} {e : Expr} (hf : Token.Follow S most least tokens)
    (hs : LocatesSubstitution S (substitutionUpTo fuel))
    (h : wholeExpression (levels (substitutionUpTo fuel) (maxNesting + 1)) (Tape.ofTokens tokens) =
      .ok e t) :
    ReadsToEnd tokens e ∧
      ∀ o ∈ e.outline, o.Faithful S ∧ least ≤ o.span.start ∧ o.span.stop ≤ most := by
  obtain ⟨hlies, hpassed, htokens, hleast⟩ := Tape.lies_ofTokens hf
  have hlocates : Locates S most (wholeExpression _) :=
    locates_wholeExpression (locatesInner_levels hs (maxNesting + 1))
  obtain ⟨-, hparts, hsound⟩ := hlocates.of_ok hlies h
  have hreaches := Parser.reaches_of_ok h
  have heof := eof_of_wholeExpression h
  obtain ⟨herror, hposition⟩ := Tape.sound_of_eof hlies hpassed hreaches hsound heof
  rw [htokens] at herror hposition
  refine ⟨⟨herror, fuel, t, h, heof, hposition⟩, fun o ho => ?_⟩
  obtain ⟨hfaithful, hread⟩ := hparts o (mem_gains ho _)
  have hlies' := hlies.reaches hreaches
  have hcurrent := hlies'.current.holds.le
  have hmost := hlies'.current_le
  have hstop := hread.stop_le hlies'
  exact ⟨hfaithful, Nat.le_trans hleast hread.1, by omega⟩

theorem valueOf_eq_error {r : Outcome Expr} {e : ParseError} :
    valueOf r = .error e ↔ ∃ t, r = .error e t := by
  cases r with
  | ok e t => simp [valueOf]
  | error e t => simp [valueOf]

/-- What substitutions stand for is located, however deep templates are inside each other, by
induction on that depth. -/
theorem locatesSubstitution_upTo (S : Source) (fuel : Nat) :
    LocatesSubstitution S (substitutionUpTo fuel) := by
  induction fuel with
  | zero =>
    refine ⟨fun tokens _ _ e hf h => ?_, fun tokens _ _ e hf h => ?_⟩
    · cases h
    cases hf with
    | last ht _ _ _ =>
      cases h
      exact ht.holds
    | cons ht _ _ _ =>
      cases h
      exact ht.holds
  | succ fuel ih =>
    refine ⟨fun tokens least most e hf h => ?_, fun tokens least most e hf h => ?_⟩
    · rw [substitutionUpTo_succ] at h
      obtain ⟨t, h⟩ := valueOf_eq_ok.1 h
      exact readsToEnd_of_wholeExpression hf ih h
    · rw [substitutionUpTo_succ] at h
      obtain ⟨t, h⟩ := valueOf_eq_error.1 h
      have hlocates : Locates S most (wholeExpression _) :=
        locates_wholeExpression (locatesInner_levels ih (maxNesting + 1))
      exact hlocates.of_error (Tape.lies_ofTokens hf).1 h

theorem locatesInner_grammar (S : Source) (stop : Nat) (tokens : List Token) :
    LocatesInner S stop (grammar tokens) :=
  locatesInner_levels (locatesSubstitution_upTo S _) _

/-! ### Templates anywhere -/

theorem substitution_levels (substitution : List Token → Except ParseError Expr) (n : Nat) :
    (levels substitution n).substitution = substitution := by
  induction n with
  | zero => rfl
  | succ n ih => exact ih

/-- The tokens of a text that starts at a given byte follow one another in a source file. -/
theorem exists_follow_tokenize (source : String) (file start : Nat) :
    ∃ S stop, Token.Follow S stop start (Token.tokenize source file start) := by
  let S : Source := ⟨List.replicate start ' ' ++ source.toList, file⟩
  have hstart : Text.byteCount (List.replicate start ' ') = start := by
    induction start with
    | zero => rfl
    | succ start ih =>
      rw [List.replicate_succ, Text.byteCount_cons, ih]
      exact Nat.add_comm 1 start
  have hat : S.HasAt start source.toList := ⟨List.replicate start ' ', [], by simp [S], hstart⟩
  exact ⟨S, _, Token.follow_tokensFrom hat⟩

/-- Wherever a template is read, each of its substitutions is read whole. -/
theorem readsToEnd_of_templateLiteral {fuel n : Nat} {t t' : Tape} {e : Expr}
    (h : templateLiteral (levels (substitutionUpTo fuel) n) t = .ok e t') :
    ∃ token parts exprs, take t = .ok token t' ∧ Template.split token.value = .ok parts ∧
      e = .template token.span parts.texts exprs ∧
      List.Forall₂ (fun sub e =>
        ReadsToEnd (substitutionTokens token.span.file (token.span.start + 1) sub) e)
        parts.substitutions exprs := by
  obtain ⟨token, u, htake, h⟩ := Parser.bind_eq_ok.1 h
  split at h
  · cases h
  rename_i parts hsplit
  obtain ⟨exprs, v, hmap, hvalue⟩ := Parser.bind_eq_ok.1 h
  obtain ⟨rfl, hR⟩ := forall₂_of_mapM (R := fun sub e =>
    ReadsToEnd (substitutionTokens token.span.file (token.span.start + 1) sub) e) hmap fun
      sub _ => by
      rw [substitution_levels]
      cases hr : substitutionUpTo fuel (substitutionTokens token.span.file
        (token.span.start + 1) sub) with
      | error e => exact .inr ⟨e, rfl⟩
      | ok e =>
        obtain ⟨S, stop, hfollow⟩ := exists_follow_tokenize sub.source token.span.file
          (token.span.start + 1 + sub.offset)
        exact .inl ⟨e, rfl, ((locatesSubstitution_upTo S fuel).reads _ _ _ _ hfollow hr).1⟩
  cases hvalue
  exact ⟨token, parts, exprs, htake, hsplit, rfl, hR⟩

end TypeStrip.Grammar
