import TypeStrip.Number.Decimal
import TypeStrip.Proofs.Lexing.Words

/-! Numbers: the text of a number that is not negative is read as one number with that text. -/
namespace TypeStrip.Number

def IsDigits (cs : List Char) : Prop := cs ≠ [] ∧ ∀ c ∈ cs, c.isDigit = true

inductive IsPlain : List Char → Prop where
  | whole {cs : List Char} : IsDigits cs → IsPlain cs
  | fraction {cs ds : List Char} : IsDigits cs → IsDigits ds → IsPlain (cs ++ '.' :: ds)

theorem IsPlain.isDigit_or_point {cs : List Char} (h : IsPlain cs) :
    ∀ c ∈ cs, c.isDigit = true ∨ c = '.' := by
  cases h with
  | whole h => exact fun c hc => .inl (h.2 c hc)
  | fraction h hd =>
    intro c hc
    rcases List.mem_append.1 hc with hc | hc
    · exact .inl (h.2 c hc)
    · exact (List.mem_cons.1 hc).elim .inr fun hc => .inl (hd.2 c hc)

theorem IsPlain.ne_nil {cs : List Char} (h : IsPlain cs) : cs ≠ [] := by
  cases h with
  | whole h => exact h.1
  | fraction => simp

theorem IsPlain.isDigit_head {c : Char} {cs : List Char} (h : IsPlain (c :: cs)) :
    c.isDigit = true := by
  generalize hl : c :: cs = l at h
  cases h with
  | whole h => exact h.2 c (by simp [← hl])
  | @fraction ds es h hd =>
    obtain ⟨d, ds, rfl⟩ := List.exists_cons_of_ne_nil h.1
    exact (List.cons.inj hl).1 ▸ h.2 d List.mem_cons_self

theorem isDigits_toDigits (n : Nat) : IsDigits (Nat.toDigits 10 n) :=
  ⟨Nat.toDigits_ne_nil, fun _ => Nat.isDigit_of_mem_toDigits (by decide) (by decide)⟩

theorem forall_isDigit_replicate (k : Nat) : ∀ c ∈ List.replicate k '0', c.isDigit = true :=
  fun c hc => by rw [(List.mem_replicate.1 hc).2]; decide

/-- A decimal is written out as its digits with zeros after them, or with zeros in front of them and
a point among the digits, which leaves digits on both sides. -/
theorem positional_cases (d : Decimal) :
    (0 ≤ d.exponent ∧
      d.positional.toList = Nat.toDigits 10 d.digits ++ List.replicate d.exponent.toNat '0') ∨
    (d.exponent < 0 ∧ ∃ whole fraction zeros, d.positional.toList = whole ++ '.' :: fraction ∧
      whole ++ fraction = List.replicate zeros '0' ++ Nat.toDigits 10 d.digits ∧
      whole ≠ [] ∧ fraction.length = (-d.exponent).toNat) := by
  unfold Decimal.positional
  split
  · exact .inl ⟨‹_›, String.toList_ofList⟩
  · have hneg : d.exponent < 0 := Int.not_le.1 ‹_›
    refine .inr ⟨hneg, _, _, _, String.toList_ofList, List.take_append_drop _ _, ?_, ?_⟩
    · rw [← List.length_pos_iff, List.length_take, List.length_append, List.length_replicate]
      omega
    · rw [List.length_drop, List.length_append, List.length_replicate]
      omega

/-- A decimal is written out without sign and exponent. -/
theorem isPlain_positional (d : Decimal) : IsPlain d.positional.toList := by
  obtain ⟨hne, hall⟩ := isDigits_toDigits d.digits
  obtain ⟨-, htext⟩ | ⟨hneg, whole, fraction, zeros, htext, hdigits, hwhole, hlength⟩ :=
    positional_cases d
  · rw [htext]
    refine .whole ⟨by simp [hne], ?_⟩
    exact List.forall_mem_append.2 ⟨hall, forall_isDigit_replicate _⟩
  · have hboth : ∀ c ∈ whole ++ fraction, c.isDigit = true :=
      hdigits ▸ List.forall_mem_append.2 ⟨forall_isDigit_replicate _, hall⟩
    obtain ⟨hw, hf⟩ := List.forall_mem_append.1 hboth
    have hfraction : fraction ≠ [] := by
      rw [← List.length_pos_iff]
      omega
    rw [htext]
    exact .fraction ⟨hwhole, hw⟩ ⟨hfraction, hf⟩

/-- A finite number that is not negative is written without sign and exponent. -/
theorem isPlain_text {x : Float} {m : Nat} {q : Int} (h : decode x = .finite false m q) :
    IsPlain (text x).toList := by
  rw [text, h]
  show IsPlain (if m = 0 then "0" else (shortest m q).positional).toList
  split
  · exact .whole ⟨by decide, List.forall_mem_singleton.2 rfl⟩
  · exact isPlain_positional _

theorem digitIn?_of_isDigit {c : Char} (h : c.isDigit = true) : (digitIn? 10 c).isSome = true := by
  have hrange : 48 ≤ c.toNat ∧ c.toNat ≤ 57 := Char.isDigit_iff_toNat.1 h
  have hall : ∀ n < 10, (digitIn? 10 (Char.ofNat (48 + n))).isSome = true := by decide
  have hc := hall (c.toNat - 48) (by omega)
  rwa [show 48 + (c.toNat - 48) = c.toNat by omega, Char.ofNat_toNat] at hc

theorem isDigit_of_digitIn? {c : Char} (h : (digitIn? 10 c).isSome = true) : c.isDigit = true := by
  unfold digitIn? digitValue? at h
  split at h
  · rename_i hc
    exact Char.isDigit_iff_toNat.2 hc
  · split at h
    · simp only [Option.filter_some, decide_eq_true_eq, Option.isSome_ite] at h
      omega
    · split at h
      · simp only [Option.filter_some, decide_eq_true_eq, Option.isSome_ite] at h
        omega
      · exact absurd h (by decide)

end TypeStrip.Number

namespace TypeStrip.Token
open TypeStrip.Text TypeStrip.Number

/-- Digits are read up to what ends them. -/
theorem digitRun_append {cs rest : List Char} (hcs : ∀ c ∈ cs, c.isDigit = true)
    (hrest : ∀ c ds, rest = c :: ds → c.isDigit = false ∧ c ≠ '_') :
    digitRun 10 (cs ++ rest) = cs := by
  have hp : ∀ c ∈ cs, ((digitIn? 10 c).isSome || c == '_') = true := fun c hc => by
    rw [digitIn?_of_isDigit (hcs c hc), Bool.true_or]
  rw [digitRun, List.takeWhile_append_of_pos hp]
  cases rest with
  | nil => simp
  | cons c rest =>
    obtain ⟨hd, hu⟩ := hrest c rest rfl
    have hc : (digitIn? 10 c).isSome = false :=
      Bool.eq_false_iff.2 fun h => by simp [isDigit_of_digitIn? h] at hd
    simp [hc, hu]

theorem EndsWord.digits {rest : List Char} (h : EndsWord rest) :
    ∀ c ds, rest = c :: ds → c.isDigit = false ∧ c ≠ '_' := by
  intro c ds e
  have hc := h c ds e
  refine ⟨Bool.eq_false_iff.2 fun hd => ?_, ?_⟩
  · simp [isWordPart_of_isDigit hd] at hc
  · rintro rfl
    exact absurd hc (by decide)

theorem exponentRun_of_endsWord {rest : List Char} (h : EndsWord rest) : exponentRun rest = [] := by
  cases rest with
  | nil => rfl
  | cons c rest =>
    have hc : ¬(c = 'e' ∨ c = 'E') := by
      rintro (rfl | rfl) <;> exact absurd (h _ _ rfl) (by decide)
    exact if_neg hc

theorem withoutSeparators_eq {cs : List Char} (h : ∀ c ∈ cs, c ≠ '_') : withoutSeparators cs = cs :=
  List.filter_eq_self.2 fun c hc => by simp [h c hc]

theorem decimalValue_eq {cs : List Char} (h : ∀ c ∈ cs, c ≠ '_' ∧ c ≠ 'E') :
    decimalValue cs = String.ofList cs := by
  rw [decimalValue, withoutSeparators_eq fun c hc => (h c hc).1]
  congr 1
  exact (List.map_congr_left fun c hc => if_neg (h c hc).2).trans (List.map_id _)

/-- A text at which the fraction and the exponent of a number end, and the number itself. -/
def EndsNumber (rest : List Char) : Prop := EndsWord rest ∧ ∀ cs, rest ≠ '.' :: cs

theorem endsNumber_cons {c : Char} (hc : c ∈ closers) (hp : c ≠ '.') (cs : List Char) :
    EndsNumber (c :: cs) :=
  ⟨endsWord_cons (isWordPart_closer c hc), fun _ e => hp (List.cons.inj e).1⟩

theorem endsNumber_append {cs : List Char} {c : Char} (h : cs.head? = some c) (hc : c ∈ closers)
    (hp : c ≠ '.') (rest : List Char) : EndsNumber (cs ++ rest) := by
  obtain ⟨cs, rfl⟩ := List.head?_eq_some_iff.1 h
  exact endsNumber_cons hc hp _

theorem endsNumber_blank (cs : List Char) : EndsNumber (' ' :: cs) :=
  endsNumber_cons (by decide) (by decide) cs

theorem fractionRun_of_endsNumber {rest : List Char} (h : EndsNumber rest) : fractionRun rest = [] := by
  unfold fractionRun
  split
  · exact absurd rfl (h.2 _)
  · rfl

theorem fractionRun_append {ds rest : List Char} (hds : IsDigits ds) (h : EndsWord rest) :
    fractionRun ('.' :: (ds ++ rest)) = '.' :: ds := by
  have htakes : takesPoint (ds ++ rest) = true := by
    obtain ⟨d, ds, rfl⟩ := List.exists_cons_of_ne_nil hds.1
    have hd := hds.2 d List.mem_cons_self
    have hrange : 48 ≤ d.toNat ∧ d.toNat ≤ 57 := Char.isDigit_iff_toNat.1 hd
    have hall : ∀ n < 10, takesPoint [Char.ofNat (48 + n)] = true := by decide +kernel
    have ht := hall (d.toNat - 48) (by omega)
    rwa [show 48 + (d.toNat - 48) = d.toNat by omega, Char.ofNat_toNat] at ht
  rw [fractionRun, if_pos htakes, digitRun_append hds.2 h.digits]

/-- A decimal number in front of what ends it, given its parts. -/
theorem decimalLexeme_eq {whole fraction rest : List Char}
    (hwhole : digitRun 10 (whole ++ (fraction ++ rest)) = whole)
    (hfraction : fractionRun (fraction ++ rest) = fraction) (h : EndsWord rest) :
    decimalLexeme (whole ++ (fraction ++ rest)) =
      ⟨.number, decimalValue (whole ++ fraction), whole ++ fraction⟩ := by
  unfold decimalLexeme
  simp only [hwhole, List.drop_left, hfraction, exponentRun_of_endsWord h, List.append_nil,
    List.length_nil, List.drop_zero]
  split
  · exact absurd (h _ _ rfl) (by decide)
  · rfl

theorem decimalLexeme_append {cs rest : List Char} (hcs : IsPlain cs) (h : EndsWord rest)
    (hdot : (∀ c ∈ cs, c.isDigit = true) → EndsNumber rest) :
    decimalLexeme (cs ++ rest) = ⟨.number, String.ofList cs, cs⟩ := by
  have hne : ∀ c ∈ cs, c ≠ '_' ∧ c ≠ 'E' := fun c hc => by
    constructor <;> rintro rfl <;> exact absurd (hcs.isDigit_or_point _ hc) (by decide)
  rw [← decimalValue_eq hne]
  cases hcs with
  | whole hcs =>
    have hfraction : fractionRun ([] ++ rest) = [] := fractionRun_of_endsNumber (hdot hcs.2)
    have hwhole : digitRun 10 (cs ++ ([] ++ rest)) = cs := digitRun_append hcs.2 h.digits
    have hlexeme := decimalLexeme_eq hwhole hfraction h
    rwa [List.append_nil] at hlexeme
  | fraction hcs hds =>
    rw [List.append_assoc]
    exact decimalLexeme_eq (digitRun_append hcs.2 fun c ds e => by cases e; decide)
      (fractionRun_append hds h) h

theorem baseOfMark?_eq_none {c : Char} (h : (c.isDigit = true ∨ c = '.') ∨ isWordPart c = false) :
    baseOfMark? c = none := by
  unfold baseOfMark?
  split <;> first | rfl | exact absurd h (by decide)

/-- Only a mark after a zero makes a number other than a decimal one. -/
theorem numberLexeme_eq {c : Char} {cs : List Char}
    (h : ∀ mark ds, cs = mark :: ds → baseOfMark? mark = none) :
    numberLexeme (c :: cs) = decimalLexeme (c :: cs) := by
  unfold numberLexeme
  split
  · rename_i mark ds e
    obtain ⟨rfl, rfl⟩ := List.cons.inj e
    rw [h mark ds rfl]
  · rfl

/-- What starts with a digit is read as a number. -/
theorem lexeme_digit {c : Char} (h : c.isDigit = true) (cs : List Char) :
    lexeme c cs = numberLexeme (c :: cs) := by
  have hquote : ¬(c = '"' ∨ c = '\'') := by
    rintro (rfl | rfl) <;> exact absurd h (by decide)
  have htemplate : c ≠ '`' := by
    rintro rfl
    exact absurd h (by decide)
  rw [lexeme, if_neg hquote, if_neg htemplate, if_pos h]

/-- A number in front of what ends it is read as a number with its text as value. Digits alone
may not be followed by a point. -/
theorem lexeme_plain {c : Char} {cs rest : List Char} (hcs : IsPlain (c :: cs)) (h : EndsWord rest)
    (hdot : (∀ d ∈ c :: cs, d.isDigit = true) → EndsNumber rest) :
    lexeme c (cs ++ rest) = ⟨.number, String.ofList (c :: cs), c :: cs⟩ := by
  rw [lexeme_digit hcs.isDigit_head, numberLexeme_eq, ← List.cons_append, decimalLexeme_append hcs h hdot]
  intro mark ds e
  refine baseOfMark?_eq_none ?_
  match cs, e with
  | [], e => exact .inr (h _ _ e)
  | d :: cs, e =>
    rw [← (List.cons.inj e).1]
    exact .inl (hcs.isDigit_or_point d (by simp))

end TypeStrip.Token
