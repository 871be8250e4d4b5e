import TypeStrip.Proofs.Escapes.Agreement

/-!
Texts that are written in escapes, one for every UTF-16 code unit. Each escape is decoded by itself.
A character of one unit comes out again. The halves of a surrogate pair are codes of no character, and
each of them comes out as the replacement character.
-/
namespace TypeStrip.Text

/-- The UTF-16 code units of a character: its code point, or a surrogate pair. -/
def utf16Units (c : Char) : List Nat :=
  if c.toNat < 0x10000 then [c.toNat]
  else [0xD800 + (c.toNat - 0x10000) / 0x400, 0xDC00 + (c.toNat - 0x10000) % 0x400]

def IsDigitChar (d : Nat) (c : Char) : Prop := d < 16 ∧ (c = d.digitChar ∨ c = d.digitChar.toUpper)

instance (d : Nat) (c : Char) : Decidable (IsDigitChar d c) :=
  inferInstanceAs (Decidable (d < 16 ∧ (c = d.digitChar ∨ c = d.digitChar.toUpper)))

inductive IsUnitEscape : Nat → List Char → Prop where
  | digits {d₁ d₂ d₃ d₄ : Nat} {c₁ c₂ c₃ c₄ : Char} (h₁ : IsDigitChar d₁ c₁)
    (h₂ : IsDigitChar d₂ c₂) (h₃ : IsDigitChar d₃ c₃) (h₄ : IsDigitChar d₄ c₄) :
    IsUnitEscape (((d₁ * 16 + d₂) * 16 + d₃) * 16 + d₄) ['\\', 'u', c₁, c₂, c₃, c₄]

inductive IsEscaped : List Nat → List Char → Prop where
  | nil : IsEscaped [] []
  | cons {unit : Nat} {units : List Nat} {escape body : List Char} (h : IsUnitEscape unit escape)
    (hs : IsEscaped units body) : IsEscaped (unit :: units) (escape ++ body)

/-- What comes out for a character if its code units are decoded one by one. -/
def unitwiseChar (c : Char) : List Char :=
  if c.toNat < 0x10000 then [c] else ['\uFFFD', '\uFFFD']

def unitwise (s : String) : String := String.ofList (s.toList.flatMap unitwiseChar)

/-! ### Code units -/

theorem charOfCode_of_surrogate {code : Nat} (h : 0xD800 ≤ code) (h' : code < 0xE000) :
    charOfCode code = '\uFFFD' := by
  refine dif_neg fun hvalid => ?_
  rcases hvalid with hlow | hhigh <;> omega

/-- The code units of a character, one by one. -/
theorem map_charOfCode_utf16Units (c : Char) :
    (utf16Units c).map charOfCode = unitwiseChar c := by
  unfold utf16Units unitwiseChar
  split
  · rw [List.map_singleton, charOfCode_toNat]
  · have hbound : c.toNat < 0x110000 := by
      rcases c.valid with h | h
      · exact Nat.lt_trans h (by decide)
      · exact h.2
    rw [List.map_cons, List.map_singleton, charOfCode_of_surrogate (by omega) (by omega),
      charOfCode_of_surrogate (by omega) (by omega)]

theorem map_charOfCode_units (s : List Char) :
    (s.flatMap utf16Units).map charOfCode = s.flatMap unitwiseChar := by
  rw [List.map_flatMap]
  simp only [map_charOfCode_utf16Units]

/-- A text comes out again exactly if each of its characters is one code unit. -/
theorem unitwise_eq_iff {s : String} : unitwise s = s ↔ ∀ c ∈ s.toList, c.toNat < 0x10000 := by
  rw [unitwise, ← String.toList_inj, String.toList_ofList]
  generalize s.toList = cs
  induction cs with
  | nil => simp
  | cons c cs ih =>
    rw [List.flatMap_cons, List.forall_mem_cons]
    by_cases hc : c.toNat < 0x10000
    · rw [unitwiseChar, if_pos hc, List.singleton_append, List.cons_inj_right, ih]
      exact (and_iff_right hc).symm
    · refine iff_of_false (fun he => ?_) fun h => hc h.1
      rw [unitwiseChar, if_neg hc] at he
      have hhead : '\uFFFD' = c := (List.cons.inj he).1
      rw [← hhead] at hc
      exact hc (by decide)

/-- A character above the basic plane in escapes, with digits in both cases. -/
theorem isEscaped_pair : IsEscaped ("😀".toList.flatMap utf16Units) "\\ud83d\\uDE00".toList := by
  have hhigh : IsUnitEscape 0xD83D "\\ud83d".toList :=
    .digits (show IsDigitChar 13 'd' by decide) (show IsDigitChar 8 '8' by decide)
      (show IsDigitChar 3 '3' by decide) (show IsDigitChar 13 'd' by decide)
  have hlow : IsUnitEscape 0xDE00 "\\uDE00".toList :=
    .digits (show IsDigitChar 13 'D' by decide) (show IsDigitChar 14 'E' by decide)
      (show IsDigitChar 0 '0' by decide) (show IsDigitChar 0 '0' by decide)
  exact .cons hhigh (.cons hlow .nil)

/-! ### Escapes -/

variable {d unit : Nat} {c quote : Char} {units : List Nat} {s escape body : List Char}

theorem digitIn?_of_isDigitChar (h : IsDigitChar d c) : Number.digitIn? 16 c = some d := by
  have hall : ∀ d < 16, Number.digitIn? 16 d.digitChar = some d ∧
      Number.digitIn? 16 d.digitChar.toUpper = some d := by decide
  obtain ⟨hd, rfl | rfl⟩ := h
  · exact (hall d hd).1
  · exact (hall d hd).2

theorem isHexDigit_of_isDigitChar (h : IsDigitChar d c) : isHexDigit c = true := by
  rw [isHexDigit, digitIn?_of_isDigitChar h, Option.isSome_some]

theorem ne_of_isDigitChar (h : IsDigitChar d c) (hd : isHexDigit quote = false) : c ≠ quote := by
  rintro rfl
  rw [isHexDigit_of_isDigitChar h] at hd
  cases hd

/-- The escape of a code unit stands for the character with that code, if there is one. -/
theorem cookString_unitEscape (h : IsUnitEscape unit escape) (cs : List Char) :
    cookString (escape ++ cs) = charOfCode unit :: cookString cs := by
  cases h with
  | @digits d₁ d₂ d₃ d₄ c₁ c₂ c₃ c₄ h₁ h₂ h₃ h₄ =>
    have hbrace (ds : List Char) (e : c₁ :: c₂ :: c₃ :: c₄ :: cs = '\x7b' :: ds) : False :=
      ne_of_isDigitChar h₁ (by decide) (List.cons.inj e).1
    have hdigits : [c₁, c₂, c₃, c₄].takeWhile isHexDigit = [c₁, c₂, c₃, c₄] := by
      simp [isHexDigit_of_isDigitChar h₁, isHexDigit_of_isDigitChar h₂,
        isHexDigit_of_isDigitChar h₃, isHexDigit_of_isDigitChar h₄]
    have hcode : hexCode [c₁, c₂, c₃, c₄] = ((d₁ * 16 + d₂) * 16 + d₃) * 16 + d₄ := by
      simp [hexCode, digitIn?_of_isDigitChar h₁, digitIn?_of_isDigitChar h₂,
        digitIn?_of_isDigitChar h₃, digitIn?_of_isDigitChar h₄]
    have hunit : codeEscape 4 (c₁ :: c₂ :: c₃ :: c₄ :: cs) =
        (charOfCode (((d₁ * 16 + d₂) * 16 + d₃) * 16 + d₄), cs) := by
      unfold codeEscape
      simp only [List.take_succ_cons, List.take_zero, hdigits, hcode, List.length_cons,
        List.length_nil, List.drop_succ_cons, List.drop_zero]
    show cookString ('\\' :: 'u' :: c₁ :: c₂ :: c₃ :: c₄ :: cs) = _
    rw [cookString_escape (by decide), escaped, if_pos rfl,
      unicodeEscape.eq_2 _ hbrace, hunit]
    rfl

theorem cookString_escaped (h : IsEscaped units body) :
    cookString body = units.map charOfCode := by
  induction h with
  | nil => rw [cookString, List.map_nil]
  | cons h _ ih => rw [cookString_unitEscape h, ih, List.map_cons]

/-- Escapes can stand between quotes and between backquotes. -/
theorem isShared_escaped (h : IsEscaped units body) (hq : isHexDigit quote = false) :
    IsShared quote body := by
  have hplain {d : Nat} {c : Char} (h : IsDigitChar d c) {cs : List Char} (hs : IsShared quote cs) :
      IsShared quote (c :: cs) := by
    refine .plain ?_ (fun e => absurd e (ne_of_isDigitChar h (by decide))) hs
    simp only [List.mem_cons, List.not_mem_nil, or_false, not_or]
    exact ⟨ne_of_isDigitChar h hq, ne_of_isDigitChar h (by decide), ne_of_isDigitChar h (by decide),
      ne_of_isDigitChar h (by decide)⟩
  induction h with
  | nil => exact .nil
  | cons h _ ih =>
    obtain ⟨h₁, h₂, h₃, h₄⟩ := h
    exact .escape (by decide) (hplain h₁ (hplain h₂ (hplain h₃ (hplain h₄ ih))))

theorem return_notMem_escaped (h : IsEscaped units body) : '\r' ∉ body := by
  induction h with
  | nil => exact List.not_mem_nil
  | cons h _ ih =>
    obtain ⟨h₁, h₂, h₃, h₄⟩ := h
    have hne {d : Nat} {c : Char} (h : IsDigitChar d c) : '\r' ≠ c :=
      (ne_of_isDigitChar h (by decide)).symm
    simp [hne h₁, hne h₂, hne h₃, hne h₄, ih]

end TypeStrip.Text

namespace TypeStrip.Token
open TypeStrip.Text TypeStrip.Template

/-- A text in escapes between quotes is one string, and between backquotes it is one text without
substitutions. In both, each code unit has been decoded by itself, which gives the text again exactly
if each of its characters is one code unit. -/
theorem escaped_units_decode {s body : String} {quote : Char}
    (h : IsEscaped (s.toList.flatMap utf16Units) body.toList) (hq : quote = '"' ∨ quote = '\'')
    (file start : Nat) :
    let source := String.singleton quote ++ body ++ String.singleton quote
    let span : Span := ⟨start, start + byteCount source.toList, file⟩
    tokenize source file start = [⟨.string, span, unitwise s, false⟩, endOfText span] ∧
      split body = .ok ⟨unitwise s, []⟩ ∧
      (unitwise s = s ↔ ∀ c ∈ s.toList, c.toNat < 0x10000) := by
  intro source span
  have hdigit : isHexDigit quote = false := by rcases hq with rfl | rfl <;> decide
  have hshared : IsShared quote body.toList := isShared_escaped h hdigit
  have hvalue : String.ofList (cookString body.toList) = unitwise s := by
    rw [cookString_escaped h, map_charOfCode_units, unitwise]
  refine ⟨?_, ?_, unitwise_eq_iff⟩
  · rw [tokenize_of_isShared hq hshared, hvalue]
  · rw [split_of_isShared hshared, cookTemplate_eq_cookString (return_notMem_escaped h), hvalue]

/-- The two halves of a surrogate pair. -/
theorem escaped_units_decode_pair :
    let body := "\\ud83d\\uDE00"
    let span : Span := ⟨0, 14, 0⟩
    IsEscaped ("😀".toList.flatMap utf16Units) body.toList ∧
      tokenize ("\"" ++ body ++ "\"") 0 0 =
        [⟨.string, span, "\uFFFD\uFFFD", false⟩, endOfText span] ∧
      split body = .ok ⟨"\uFFFD\uFFFD", []⟩ := by
  intro body span
  obtain ⟨htokens, hsplit, -⟩ := escaped_units_decode isEscaped_pair (.inl rfl) 0 0
  exact ⟨isEscaped_pair, htokens, hsplit⟩

/-- Not every text comes out of its escapes again: the halves of a surrogate pair are not joined. -/
theorem escaped_pair_not_joined :
    ¬∀ s body : String, IsEscaped (s.toList.flatMap utf16Units) body.toList →
      (tokenize ("\"" ++ body ++ "\"") 0 0).map (fun t => (t.kind, t.value)) =
          [(.string, s), (.eof, "")] ∧
        (split body).map Parts.texts = .ok [s] := by
  intro h
  have htokens := (h "😀" _ isEscaped_pair).1
  exact absurd htokens (by decide +kernel)

end TypeStrip.Token
