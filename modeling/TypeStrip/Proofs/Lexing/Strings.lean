import TypeStrip.Text.Quoted
import TypeStrip.Token.Lexeme
import Mathlib.Data.List.TakeWhile

/-! String literals: what is quoted is read back, whatever follows it. -/
namespace TypeStrip.Text

/-! ### Hexadecimal digits -/

private theorem digitIn?_digitChar : ∀ d < 16, Number.digitIn? 16 d.digitChar = some d := by decide

private theorem hexCode_append_singleton (digits : List Char) (c : Char) :
    hexCode (digits ++ [c]) = hexCode digits * 16 + (Number.digitIn? 16 c).getD 0 := by
  simp [hexCode]

/-- The digits of a number stand for that number. -/
theorem hexCode_toDigits (n : Nat) : hexCode (Nat.toDigits 16 n) = n := by
  induction n using Nat.strongRecOn with
  | _ n ih =>
    by_cases h : n < 16
    · rw [Nat.toDigits_of_lt_base h]
      show 0 * 16 + _ = n
      rw [digitIn?_digitChar n h]
      simp
    · rw [Nat.toDigits_of_base_le (by omega) (by omega), hexCode_append_singleton, ih _ (by omega),
        digitIn?_digitChar _ (Nat.mod_lt n (by omega)), Option.getD_some]
      omega

theorem isHexDigit_of_mem_toDigits {n : Nat} {c : Char} (h : c ∈ Nat.toDigits 16 n) :
    isHexDigit c = true := by
  induction n using Nat.strongRecOn with
  | _ n ih =>
    have hd (d : Nat) (hd : d < 16) : isHexDigit d.digitChar = true := by
      rw [isHexDigit, digitIn?_digitChar d hd, Option.isSome_some]
    by_cases hn : n < 16
    · rw [Nat.toDigits_of_lt_base hn, List.mem_singleton] at h
      exact h ▸ hd n hn
    · rw [Nat.toDigits_of_base_le (by omega) (by omega), List.mem_append, List.mem_singleton] at h
      cases h with
      | inl h => exact ih _ (by omega) h
      | inr h => exact h ▸ hd _ (Nat.mod_lt n (by omega))

theorem length_fourHexDigits {n : Nat} (h : n < 65536) : (fourHexDigits n).length = 4 := by
  have hle : (Nat.toDigits 16 n).length ≤ 4 :=
    (Nat.length_toDigits_le_iff (by omega) (by omega)).2 h
  simp only [fourHexDigits, List.length_append, List.length_replicate]
  omega

theorem isHexDigit_of_mem_fourHexDigits {n : Nat} {c : Char} (h : c ∈ fourHexDigits n) :
    isHexDigit c = true := by
  rcases List.mem_append.1 h with h | h
  · rw [(List.mem_replicate.1 h).2]
    decide
  · exact isHexDigit_of_mem_toDigits h

theorem hexCode_fourHexDigits (n : Nat) : hexCode (fourHexDigits n) = n := by
  have hz (k : Nat) (cs : List Char) : hexCode (List.replicate k '0' ++ cs) = hexCode cs := by
    induction k with
    | zero => rfl
    | succ k ih => exact ih
  rw [fourHexDigits, hz, hexCode_toDigits]

theorem charOfCode_toNat (c : Char) : charOfCode c.toNat = c := by
  have h : c.toNat.isValidChar := c.valid
  rw [charOfCode, dif_pos h]
  rfl

/-- Four hexadecimal digits after a backslash and `u` stand for a character. -/
theorem unicodeEscape_fourHexDigits {c : Char} (h : c.toNat < 65536) (cs : List Char) :
    unicodeEscape (fourHexDigits c.toNat ++ cs) = (c, cs) := by
  have hl := length_fourHexDigits h
  have hall : ∀ d ∈ fourHexDigits c.toNat, isHexDigit d = true := fun _ => isHexDigit_of_mem_fourHexDigits
  have hcode : codeEscape 4 (fourHexDigits c.toNat ++ cs) = (c, cs) := by
    rw [codeEscape, List.take_left' hl, List.takeWhile_eq_self_iff.2 hall, hl, List.drop_left' hl,
      hexCode_fourHexDigits, charOfCode_toNat]
  generalize fourHexDigits c.toNat = digits at hl hall hcode
  cases digits with
  | nil => cases hl
  | cons d ds =>
    have hd : d ≠ '\x7b' := by
      rintro rfl
      exact absurd (hall _ List.mem_cons_self) (by decide)
    unfold unicodeEscape
    split
    · rename_i heq
      exact absurd (List.cons.inj heq).1 hd
    · exact hcode

/-! ### Quoted characters -/

/-- The ways to write a character between quotes. -/
theorem quotedChar_cases (c : Char) :
    (∃ d, quotedChar c = ['\\', d] ∧ d ≠ 'u' ∧ d ≠ 'x' ∧ d ≠ '\n' ∧ d ≠ '\r' ∧ simpleEscape d = c) ∨
    (quotedChar c = '\\' :: 'u' :: fourHexDigits c.toNat ∧ c.toNat < 65536) ∨
    (quotedChar c = [c] ∧ c ≠ '\\' ∧ c ≠ '"' ∧ c ≠ '\n') := by
  unfold quotedChar
  split
  iterate 8 exact .inl ⟨_, rfl, by decide, by decide, by decide, by decide, by decide⟩
  · rename_i h₁ h₂ h₃ _ _ _ _ _
    split
    · rename_i h
      refine .inr (.inl ⟨rfl, ?_⟩)
      simp only [Bool.or_eq_true, decide_eq_true_eq, beq_iff_eq] at h
      rcases h with (h | rfl) | rfl
      · omega
      · decide
      · decide
    · exact .inr (.inr ⟨rfl, h₂, h₁, h₃⟩)

/-- A quoted character in a string stands for that character. -/
theorem cookString_quotedChar (c : Char) (cs : List Char) :
    cookString (quotedChar c ++ cs) = c :: cookString cs := by
  rcases quotedChar_cases c with ⟨d, hq, hu, hx, hn, hr, rfl⟩ | ⟨hq, hc⟩ | ⟨hq, hb, -, -⟩
  · rw [hq]
    show cookString ('\\' :: d :: cs) = _
    rw [cookString.eq_4 _ (by simp [hr]) (by simp [hr])]
    simp [escaped, hu, hx, hn]
  · rw [hq]
    show cookString ('\\' :: 'u' :: (fourHexDigits c.toNat ++ cs)) = _
    rw [cookString.eq_4 _ (by simp) (by simp)]
    simp [escaped, unicodeEscape_fourHexDigits hc]
  · rw [hq]
    show cookString (c :: cs) = _
    rw [cookString.eq_5] <;> simp [hb]

/-- A quoted text stands for that text. -/
theorem cookString_quoted (s : List Char) : cookString (s.flatMap quotedChar) = s := by
  induction s with
  | nil => rw [List.flatMap_nil, cookString]
  | cons c s ih => rw [List.flatMap_cons, cookString_quotedChar, ih]

end TypeStrip.Text

namespace TypeStrip.Token
open TypeStrip.Text

/-- A character that neither closes a string nor begins an escape is a part of its body. -/
theorem stringBody_cons {quote c : Char} (hb : c ≠ '\\') (hq : c ≠ quote) (hn : c ≠ '\n')
    (cs : List Char) :
    stringBody quote (c :: cs) = (c :: (stringBody quote cs).1, (stringBody quote cs).2) := by
  rw [stringBody.eq_5] <;> simp [hb, hq, hn]

theorem stringBody_append {quote : Char} {body : List Char}
    (h : ∀ c ∈ body, c ≠ '\\' ∧ c ≠ quote ∧ c ≠ '\n') (cs : List Char) :
    stringBody quote (body ++ cs) = (body ++ (stringBody quote cs).1, (stringBody quote cs).2) := by
  induction body with
  | nil => rfl
  | cons c body ih =>
    obtain ⟨⟨hb, hc, hn⟩, hbody⟩ := List.forall_mem_cons.1 h
    rw [List.cons_append, stringBody_cons hb hc hn, ih hbody]
    rfl

/-- An escape is a part of the body of a string. -/
theorem stringBody_escape {quote d : Char} (hd : d ≠ '\r') (cs : List Char) :
    stringBody quote ('\\' :: d :: cs) =
      ('\\' :: d :: (stringBody quote cs).1, (stringBody quote cs).2) := by
  rw [stringBody.eq_4 _ _ _ (by simp [hd])]

/-- A quoted character does not end a string. -/
theorem stringBody_quotedChar (c : Char) (cs : List Char) :
    stringBody '"' (quotedChar c ++ cs) =
      (quotedChar c ++ (stringBody '"' cs).1, (stringBody '"' cs).2) := by
  rcases quotedChar_cases c with ⟨d, hq, -, -, -, hr, -⟩ | ⟨hq, hc⟩ | ⟨hq, hb, hc, hn⟩
  · rw [hq]
    exact stringBody_escape hr cs
  · have hall : ∀ d ∈ fourHexDigits c.toNat, d ≠ '\\' ∧ d ≠ '"' ∧ d ≠ '\n' := by
      intro d hd
      have := isHexDigit_of_mem_fourHexDigits hd
      refine ⟨?_, ?_, ?_⟩ <;> rintro rfl <;> exact absurd this (by decide)
    rw [hq]
    show stringBody '"' ('\\' :: 'u' :: (fourHexDigits c.toNat ++ cs)) = _
    rw [stringBody_escape (by decide), stringBody_append hall]
    rfl
  · rw [hq]
    exact stringBody_cons hb hc hn cs

theorem stringBody_quoted (s : List Char) (rest : List Char) :
    stringBody '"' (s.flatMap quotedChar ++ '"' :: rest) = (s.flatMap quotedChar, true) := by
  induction s with
  | nil => simp [stringBody]
  | cons c s ih =>
    rw [List.flatMap_cons, List.append_assoc, stringBody_quotedChar, ih]

/-- What is quoted is read as one string with that value, whatever follows it. -/
theorem stringLexeme_quoted (s : String) (rest : List Char) :
    stringLexeme '"' (s.toList.flatMap quotedChar ++ '"' :: rest) =
      ⟨.string, s, (Text.quoted s).toList⟩ := by
  rw [stringLexeme, stringBody_quoted]
  simp [cookString_quoted, Text.quoted]

end TypeStrip.Token
