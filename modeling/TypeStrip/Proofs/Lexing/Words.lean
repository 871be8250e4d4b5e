import TypeStrip.Text.Blank
import TypeStrip.Token.Lexeme

/-! Words: where they end, and what a text that starts with one is read as. -/
namespace TypeStrip.Text

def blankCodes : List Nat :=
  [9, 10, 11, 12, 13, 32, 0x85, 0xA0, 0x1680, 0x2000, 0x2001, 0x2002, 0x2003, 0x2004, 0x2005,
    0x2006, 0x2007, 0x2008, 0x2009, 0x200A, 0x2028, 0x2029, 0x202F, 0x205F, 0x3000]

theorem mem_blankCodes {c : Char} (h : isBlank c = true) : c.toNat ∈ blankCodes := by
  simp only [isBlank, Bool.or_eq_true, Bool.and_eq_true, decide_eq_true_eq, beq_iff_eq] at h
  simp only [blankCodes, List.mem_cons, List.not_mem_nil, or_false]
  omega

/-- No blank is a part of a word. -/
theorem isWordPart_of_isBlank {c : Char} (h : isBlank c = true) : isWordPart c = false := by
  have hall : ∀ n ∈ blankCodes, isWordPart (Char.ofNat n) = false := by decide +kernel
  have hc := hall c.toNat (mem_blankCodes h)
  rwa [Char.ofNat_toNat] at hc

theorem isWordPart_of_isWordStart {c : Char} (h : isWordStart c = true) : isWordPart c = true := by
  simp only [isWordStart, isWordPart, Bool.or_eq_true] at *
  rcases h with (h | h) | h
  · exact .inl (.inl (.inl h))
  · exact .inl (.inr h)
  · exact .inr h

/-- A word has only parts of words in it. -/
theorem forall_isWordPart {word : String} (h : isWord word = true) :
    ∀ c ∈ word.toList, isWordPart c = true := by
  unfold isWord at h
  split at h
  · exact absurd h (by decide)
  · rename_i c cs hs
    obtain ⟨hstart, hparts⟩ := Bool.and_eq_true_iff.1 h
    rw [hs]
    exact List.forall_mem_cons.2 ⟨isWordPart_of_isWordStart hstart, List.all_eq_true.1 hparts⟩

/-- No word starts with a digit. -/
theorem isDigit_of_isWordStart {c : Char} (h : isWordStart c = true) : c.isDigit = false := by
  refine Bool.eq_false_iff.2 fun hd => ?_
  have hrange : 48 ≤ c.toNat ∧ c.toNat ≤ 57 := Char.isDigit_iff_toNat.1 hd
  have hall : ∀ n < 10, isWordStart (Char.ofNat (48 + n)) = false := by decide +kernel
  have hc := hall (c.toNat - 48) (by omega)
  rw [show 48 + (c.toNat - 48) = c.toNat by omega, Char.ofNat_toNat, h] at hc
  exact absurd hc (by decide)

theorem isBlank_of_isWordStart {c : Char} (h : isWordStart c = true) : isBlank c = false := by
  refine Bool.eq_false_iff.2 fun hb => ?_
  have hw := isWordPart_of_isBlank hb
  rw [isWordPart_of_isWordStart h] at hw
  exact absurd hw (by decide)

theorem isWordPart_of_isDigit {c : Char} (h : c.isDigit = true) : isWordPart c = true := by
  have hrange : 48 ≤ c.toNat ∧ c.toNat ≤ 57 := Char.isDigit_iff_toNat.1 h
  have hlt : c.toNat < 128 := by omega
  simp [isWordPart, isNumeric, hlt, h]

end TypeStrip.Text

namespace TypeStrip.Token
open TypeStrip.Text

def EndsWord (rest : List Char) : Prop := ∀ c cs, rest = c :: cs → isWordPart c = false

theorem endsWord_nil : EndsWord [] := fun _ _ h => nomatch h

theorem endsWord_cons {c : Char} {cs : List Char} (h : isWordPart c = false) : EndsWord (c :: cs) :=
  fun _ _ e => (List.cons.inj e).1 ▸ h

def closers : List Char := [' ', ')', ']', ',', '.', '?', '(', '[', '+', '-']

theorem isWordPart_closer : ∀ c ∈ closers, isWordPart c = false := by
  have hall : (closers.all fun c => !isWordPart c) = true := by decide +kernel
  simpa using hall

theorem endsWord_append {cs : List Char} {c : Char} (h : cs.head? = some c) (hc : c ∈ closers)
    (rest : List Char) : EndsWord (cs ++ rest) := by
  obtain ⟨cs, rfl⟩ := List.head?_eq_some_iff.1 h
  exact endsWord_cons (isWordPart_closer c hc)

/-- What ends a word is found at its end. -/
theorem takeWhile_append_endsWord {p : Char → Bool} (hp : ∀ c, p c = true → isWordPart c = true)
    {cs rest : List Char} (hcs : ∀ c ∈ cs, p c = true) (hrest : EndsWord rest) :
    (cs ++ rest).takeWhile p = cs := by
  rw [List.takeWhile_append_of_pos hcs]
  cases rest with
  | nil => simp
  | cons c rest =>
    have hc : p c = false := by
      refine Bool.eq_false_iff.2 fun h => ?_
      have hw := hp c h
      rw [hrest c rest rfl] at hw
      exact absurd hw (by decide)
    simp [hc]

def kindOfWord (word : String) : Kind := (Kind.ofWord? word).getD .identifier

structure IsIdentifier (name : String) : Prop where
  word : isWord name = true
  free : Kind.ofWord? name = none

theorem IsIdentifier.kind {name : String} (h : IsIdentifier name) :
    kindOfWord name = .identifier := by
  rw [kindOfWord, h.free]
  rfl

theorem isReserved_of_ofWord? {word : String} {kind : Kind} (h : Kind.ofWord? word = some kind) :
    kind.isReserved = true := by
  obtain ⟨front, back, hwords, -⟩ := List.lookup_eq_some_iff.1 h
  refine List.any_eq_true.2 ⟨(word, kind), ?_, by simp⟩
  rw [hwords]
  simp

theorem isIdentifier_of_kindOfWord {name : String} (hw : isWord name = true)
    (hk : kindOfWord name = .identifier) : IsIdentifier name := by
  refine ⟨hw, Option.eq_none_iff_forall_ne_some.2 fun k hword => ?_⟩
  rw [kindOfWord, hword, Option.getD_some] at hk
  have hfree : ¬Kind.identifier.isReserved = true := by decide
  exact absurd (hk ▸ isReserved_of_ofWord? hword) hfree

/-- A word is an identifier or reserved. -/
theorem kindOfWord_cases (word : String) :
    kindOfWord word = .identifier ∨ (kindOfWord word).isReserved = true := by
  rw [kindOfWord]
  cases h : Kind.ofWord? word with
  | none => exact .inl rfl
  | some kind => exact .inr (isReserved_of_ofWord? h)

/-- A word is read up to its end. -/
theorem wordLexeme_append {word : String} (hw : ∀ c ∈ word.toList, isWordPart c = true)
    {rest : List Char} (hrest : EndsWord rest) :
    wordLexeme (word.toList ++ rest) = ⟨kindOfWord word, word, word.toList⟩ := by
  rw [wordLexeme, takeWhile_append_endsWord (fun _ h => h) hw hrest, String.ofList_toList]
  rfl

/-- What starts like a word is read as one. -/
theorem lexeme_word {c : Char} (h : isWordStart c = true) (cs : List Char) :
    lexeme c cs = wordLexeme (c :: cs) := by
  have hquote : ¬(c = '"' ∨ c = '\'') := by
    rintro (rfl | rfl) <;> exact absurd h (by decide +kernel)
  have htemplate : c ≠ '`' := by
    rintro rfl
    exact absurd h (by decide +kernel)
  rw [lexeme, if_neg hquote, if_neg htemplate, isDigit_of_isWordStart h, if_neg (by decide),
    if_pos h]

end TypeStrip.Token
