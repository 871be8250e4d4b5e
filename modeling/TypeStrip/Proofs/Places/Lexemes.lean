import Mathlib.Data.List.Basic
import TypeStrip.Grammar.Tape
import TypeStrip.Proofs.Lexing.Forms
import TypeStrip.Proofs.Places.Source

/-! What a lexeme takes from the text that it is read from. -/
namespace TypeStrip.Token
open TypeStrip.Text TypeStrip.Grammar TypeStrip.Number

/-- Kinds of tokens whose spelling nothing depends on. -/
def Kind.isOpaque (k : Kind) : Bool :=
  !k.isWord && k != .template && k != .eof && (afterAngle? k).isNone

/-- A lexeme is the start of a text. A word is its own spelling, a template is its body between
backquotes, and what starts with `>` is one byte longer than what may be left of it. -/
structure Lexeme.Starts (l : Lexeme) (cs : List Char) : Prop where
  source : l.source <+: cs
  nonempty : l.source ≠ []
  kind : l.kind ≠ .eof
  word : l.kind.isWord = true → l.source = l.value.toList
  template : l.kind = .template → l.source = '`' :: l.value.toList ++ ['`']
  angle : ∀ kind value, afterAngle? l.kind = some (kind, value) →
    byteCount l.source = byteCount value.toList + 1

variable {l : Lexeme} {cs : List Char}

theorem Lexeme.Starts.of_isOpaque (hk : l.kind.isOpaque = true) (hs : l.source <+: cs)
    (hn : l.source ≠ []) : l.Starts cs := by
  simp only [Kind.isOpaque, Bool.and_eq_true, Bool.not_eq_true', bne_iff_ne, ne_eq,
    Option.isNone_iff_eq_none] at hk
  obtain ⟨⟨⟨hword, htemplate⟩, heof⟩, hangle⟩ := hk
  refine ⟨hs, hn, heof, fun h => ?_, fun h => absurd h htemplate, fun kind value h => ?_⟩
  · rw [hword] at h
    cases h
  · rw [hangle] at h
    cases h

/-! ### Words -/

theorem isWord_cases {k : Kind} (h : k.isWord = true) :
    k ≠ .eof ∧ k ≠ .template ∧ k ≠ .error ∧ afterAngle? k = none := by
  revert h
  cases k <;> decide

theorem isWord_wordLexeme (cs : List Char) : (wordLexeme cs).kind.isWord = true := by
  rcases kindOfWord_cases (wordLexeme cs).value with h | h
  · exact Bool.or_eq_true_iff.2 (.inl (beq_iff_eq.2 h))
  · exact Bool.or_eq_true_iff.2 (.inr h)

theorem starts_wordLexeme {c : Char} (hc : isWordStart c = true) :
    (wordLexeme (c :: cs)).Starts (c :: cs) := by
  have hword := isWord_wordLexeme (c :: cs)
  obtain ⟨heof, htemplate, -, hangle⟩ := isWord_cases hword
  refine ⟨List.takeWhile_prefix _, ?_, heof, fun _ => ?_, fun h => absurd h htemplate, ?_⟩
  · show (c :: cs).takeWhile isWordPart ≠ []
    rw [List.takeWhile_cons_of_pos (isWordPart_of_isWordStart hc)]
    exact List.cons_ne_nil _ _
  · exact (String.toList_ofList).symm
  · intro kind value h
    rw [hangle] at h
    cases h

/-! ### Numbers -/

theorem prefix_append_of_drop {as bs cs : List Char} (ha : as <+: cs)
    (hb : bs <+: cs.drop as.length) : as ++ bs <+: cs := by
  obtain ⟨rest, rfl⟩ := ha
  rw [List.drop_left] at hb
  exact (List.prefix_append_right_inj as).2 hb

theorem prefix_digitRun (base : Nat) (cs : List Char) : digitRun base cs <+: cs :=
  List.takeWhile_prefix _

theorem prefix_fractionRun (cs : List Char) : fractionRun cs <+: cs := by
  unfold fractionRun
  split
  · split
    · exact (List.prefix_cons_inj _).2 (prefix_digitRun 10 _)
    · exact List.nil_prefix
  · exact List.nil_prefix

theorem prefix_exponentRun (cs : List Char) : exponentRun cs <+: cs := by
  unfold exponentRun
  split
  · split
    · split
      · exact (List.prefix_cons_inj _).2 ((List.prefix_cons_inj _).2 (prefix_digitRun 10 _))
      · exact (List.prefix_cons_inj _).2 ((List.prefix_cons_inj _).2 (prefix_digitRun 10 _))
      · exact (List.prefix_cons_inj _).2 (prefix_digitRun 10 _)
    · exact List.nil_prefix
  · exact List.nil_prefix

theorem starts_decimalLexeme {c : Char} (hc : c.isDigit = true) :
    (decimalLexeme (c :: cs)).Starts (c :: cs) := by
  have hwhole := prefix_digitRun 10 (c :: cs)
  have hne : digitRun 10 (c :: cs) ≠ [] := by
    have hdigit := digitIn?_of_isDigit hc
    rw [digitRun, List.takeWhile_cons_of_pos (by rw [hdigit, Bool.true_or])]
    exact List.cons_ne_nil _ _
  have hfraction := prefix_append_of_drop hwhole (prefix_fractionRun _)
  -- what the run is a start of is still open here, so no rewrite may close the goal
  have hexponent := prefix_append_of_drop hfraction
    (by rewrite [List.length_append, ← List.drop_drop]; exact prefix_exponentRun _)
  unfold decimalLexeme
  dsimp only
  split
  · rename_i rest hrest
    refine .of_isOpaque rfl (prefix_append_of_drop hexponent ?_) (by simp)
    rw [List.length_append, List.length_append, ← List.drop_drop, ← List.drop_drop, hrest]
    exact (List.prefix_cons_inj _).2 List.nil_prefix
  · exact .of_isOpaque rfl hexponent (by simp [hne])

theorem starts_numberLexeme {c : Char} (hc : c.isDigit = true) :
    (numberLexeme (c :: cs)).Starts (c :: cs) := by
  unfold numberLexeme
  split
  · rename_i mark cs h
    split
    · refine .of_isOpaque rfl ?_ (List.cons_ne_nil _ _)
      rw [h]
      exact (List.prefix_cons_inj _).2 ((List.prefix_cons_inj _).2 (prefix_digitRun _ _))
    · rw [h] at *
      exact starts_decimalLexeme (by decide)
  · exact starts_decimalLexeme hc

theorem starts_pointLexeme : (pointLexeme cs).Starts ('.' :: cs) :=
  .of_isOpaque rfl
    ((List.prefix_cons_inj _).2 (prefix_append_of_drop (prefix_digitRun 10 cs)
      (prefix_exponentRun _)))
    (List.cons_ne_nil _ _)

/-! ### Strings and templates -/

theorem stringBody_prefix (quote : Char) (cs : List Char) :
    (stringBody quote cs).1 ++ (if (stringBody quote cs).2 then [quote] else []) <+: cs := by
  fun_induction stringBody quote cs with
  | case1 => exact List.nil_prefix
  | case2 => exact List.prefix_rfl
  | case3 cs body closed h ih =>
    rw [h] at ih
    exact (List.prefix_cons_inj _).2 ((List.prefix_cons_inj _).2 ((List.prefix_cons_inj _).2 ih))
  | case4 c cs _ body closed h ih =>
    rw [h] at ih
    exact (List.prefix_cons_inj _).2 ((List.prefix_cons_inj _).2 ih)
  | case5 cs _ _ => exact (List.prefix_cons_inj _).2 List.nil_prefix
  | case6 => exact List.nil_prefix
  | case7 c cs _ _ _ _ _ body closed h ih =>
    rw [h] at ih
    exact (List.prefix_cons_inj _).2 ih

theorem starts_stringLexeme (quote : Char) (cs : List Char) :
    (stringLexeme quote cs).Starts (quote :: cs) := by
  have hbody := stringBody_prefix quote cs
  unfold stringLexeme
  split
  · rename_i h
    rw [h] at hbody
    exact .of_isOpaque rfl ((List.prefix_cons_inj _).2 hbody) (List.cons_ne_nil _ _)
  · rename_i h
    rw [h] at hbody
    exact .of_isOpaque rfl ((List.prefix_cons_inj _).2 (by simpa using hbody))
      (List.cons_ne_nil _ _)

def closing : Enclosure → Char
  | .template => '`'
  | .braces => '}'
  | .quoted quote => quote

/-- A character closes the innermost enclosure, or opens more inside it. -/
theorem after_cases (inner : Enclosure) (outer : List Enclosure) (c : Char) :
    (inner.after outer c = outer ∧ c = closing inner) ∨
      ∃ opened, inner.after outer c = opened ++ inner :: outer := by
  unfold Enclosure.after
  split
  · split
    · exact .inl ⟨rfl, by assumption⟩
    · exact .inr ⟨[], rfl⟩
  · split
    · exact .inl ⟨rfl, by assumption⟩
    · exact .inr ⟨[], rfl⟩
  · split
    · exact .inr ⟨[.braces], rfl⟩
    · split
      · exact .inl ⟨rfl, by assumption⟩
      · split
        · exact .inr ⟨[.quoted c], rfl⟩
        · split
          · exact .inr ⟨[.template], rfl⟩
          · exact .inr ⟨[], rfl⟩

/-- After a character the outermost enclosure is the same, unless that was its end. -/
theorem getLast?_after {inner outermost : Enclosure} {outer : List Enclosure}
    (h : (inner :: outer).getLast? = some outermost) (c : Char) :
    (inner.after outer c).getLast? = some outermost ∨
      inner.after outer c = [] ∧ c = closing outermost := by
  rcases after_cases inner outer c with ⟨ha, hc⟩ | ⟨opened, ha⟩
  · rw [ha]
    cases outer with
    | nil =>
      cases h
      exact .inr ⟨rfl, hc⟩
    | cons => exact .inl (by rwa [List.getLast?_cons_cons] at h)
  · rw [ha, List.getLast?_append, h]
    exact .inl rfl

/-- What closes all enclosures ends with the character that closes the outermost one. -/
theorem getLast?_of_enclosed {stack : List Enclosure} {cs text rest : List Char}
    {outermost : Enclosure} (h : enclosed stack cs = some (text, rest))
    (hs : stack.getLast? = some outermost) : text.getLast? = some (closing outermost) := by
  have hcons {c : Char} {text : List Char} (h : text.getLast? = some (closing outermost)) :
      (c :: text).getLast? = some (closing outermost) := by
    rw [List.getLast?_cons, h]
    rfl
  fun_induction enclosed stack cs generalizing text rest with
  | case1 => cases hs
  | case2 => cases h
  | case3 inner outer c ih =>
    obtain ⟨⟨text', rest'⟩, he, ht⟩ := Option.map_eq_some_iff.1 h
    cases ht
    rcases getLast?_after hs c with hs | ⟨ha, hc⟩
    · exact hcons (ih he hs)
    · rw [ha, enclosed] at he
      cases he
      exact congrArg some hc
  | case4 _ _ _ _ _ _ ih =>
    obtain ⟨⟨text', rest'⟩, he, ht⟩ := Option.map_eq_some_iff.1 h
    cases ht
    exact hcons (hcons (ih he hs))
  | case5 _ _ _ _ _ _ _ ih =>
    obtain ⟨⟨text', rest'⟩, he, ht⟩ := Option.map_eq_some_iff.1 h
    cases ht
    exact hcons (hcons (ih he hs))
  | case6 inner outer c d cs _ _ ih =>
    obtain ⟨⟨text', rest'⟩, he, ht⟩ := Option.map_eq_some_iff.1 h
    cases ht
    rcases getLast?_after hs c with hs | ⟨ha, hc⟩
    · exact hcons (ih he hs)
    · rw [ha, enclosed] at he
      cases he
      exact congrArg some hc

/-- The text inside an enclosure, and the character that closes it. -/
theorem enclosed_eq {inner : Enclosure} {cs text rest : List Char}
    (h : enclosed [inner] cs = some (text, rest)) : text = text.dropLast ++ [closing inner] :=
  (List.dropLast_append_getLast? _ (getLast?_of_enclosed h rfl)).symm

theorem starts_templateLexeme (cs : List Char) : (templateLexeme cs).Starts ('`' :: cs) := by
  unfold templateLexeme
  split
  · rename_i body rest h
    have hbody := enclosed_eq h
    have hsource : '`' :: body = '`' :: (String.ofList body.dropLast).toList ++ ['`'] := by
      rw [String.toList_ofList]
      exact congrArg (List.cons _) hbody
    refine ⟨(List.prefix_cons_inj _).2 ⟨rest, append_of_enclosed h⟩, List.cons_ne_nil _ _, ?_, ?_,
      fun _ => hsource, fun _ _ ha => by cases ha⟩
    · exact show Kind.template ≠ .eof by decide
    · exact fun hw => absurd hw (show ¬Kind.template.isWord = true by decide)
  · exact .of_isOpaque rfl List.prefix_rfl (List.cons_ne_nil _ _)

/-! ### Operators -/

theorem operators_angle : ∀ o ∈ operators, o.2 ≠ .eof ∧ o.2 ≠ .template ∧
    ∀ rest ∈ afterAngle? o.2, byteCount o.1.toList = byteCount rest.2.toList + 1 := by
  decide +kernel

theorem starts_operator? (h : operator? cs = some l) : l.Starts cs := by
  obtain ⟨o, ho, hl⟩ := List.exists_of_findSome?_eq_some h
  dsimp only at hl
  split at hl
  · rename_i hp
    cases hl
    obtain ⟨heof, htemplate, hangle⟩ := operators_angle o ho
    have hstarts := List.isPrefixOf_iff_prefix.1 (Bool.and_eq_true_iff.1 hp).1
    refine ⟨hstarts, operator_ne_nil o ho, heof, fun h => ?_, fun h => absurd h htemplate,
      fun kind value h => hangle _ h⟩
    exact absurd h (by rw [isWord_operators o ho]; decide)
  · cases hl

theorem starts_lexeme (c : Char) (cs : List Char) : (lexeme c cs).Starts (c :: cs) := by
  unfold lexeme
  split
  · exact starts_stringLexeme c cs
  · split
    · rename_i h
      exact h ▸ starts_templateLexeme cs
    · split
      · rename_i h
        exact starts_numberLexeme h
      · split
        · rename_i h
          exact starts_wordLexeme h
        · split
          · rename_i h
            exact h.1 ▸ starts_pointLexeme
          · cases ho : operator? (c :: cs) with
            | none =>
              exact .of_isOpaque rfl ((List.prefix_cons_inj _).2 List.nil_prefix)
                (List.cons_ne_nil _ _)
            | some l => exact starts_operator? ho

end TypeStrip.Token
