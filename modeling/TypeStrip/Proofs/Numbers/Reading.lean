import Mathlib
import TypeStrip.Proofs.Lexing.Numbers
import TypeStrip.Proofs.Numbers.Shortest
import TypeStrip.Proofs.Printing.Operators

/-!
Writing a finite double that is not negative and reading its text again gives the double back.
-/
namespace TypeStrip.Number

variable {cs ds : List Char} {d : Decimal} {m : Nat} {q : Int} {f : Float}

/-! ### Reading digits -/

theorem digitIn?_eq {c : Char} (h : c.isDigit = true) : digitIn? 10 c = some (c.toNat - '0'.toNat) := by
  have hrange : 48 ≤ c.toNat ∧ c.toNat ≤ 57 := Char.isDigit_iff_toNat.1 h
  have hvalue : digitValue? c = some (c.toNat - '0'.toNat) := if_pos hrange
  have hlt : c.toNat - '0'.toNat < 10 := show c.toNat - 48 < 10 by omega
  rw [digitIn?, hvalue, Option.filter_some, if_pos (decide_eq_true hlt)]

theorem foldlM_digits (h : ∀ c ∈ cs, c.isDigit = true) (n : Nat) :
    cs.foldlM (fun n c => (digitIn? 10 c).map (n * 10 + ·)) n = some (Nat.ofDigitChars 10 cs n) := by
  induction cs generalizing n with
  | nil => rfl
  | cons c cs ih =>
    obtain ⟨hc, hcs⟩ := List.forall_mem_cons.1 h
    rw [List.foldlM_cons, digitIn?_eq hc, Nat.ofDigitChars_cons, mul_comm 10]
    exact ih hcs _

theorem natOfDigits?_eq (h : ∀ c ∈ cs, c.isDigit = true) :
    natOfDigits? 10 cs = some (Nat.ofDigitChars 10 cs 0) := foldlM_digits h 0

/-- Digits are taken up to what is none. -/
theorem span_digits (h : ∀ c ∈ cs, c.isDigit = true) {rest : List Char}
    (hrest : ∀ c ds, rest = c :: ds → c.isDigit = false) :
    (cs ++ rest).span Char.isDigit = (cs, rest) := by
  have hdrop : rest.dropWhile Char.isDigit = rest ∧ rest.takeWhile Char.isDigit = [] := by
    cases rest with
    | nil => exact ⟨rfl, rfl⟩
    | cons c ds => simp [hrest c ds rfl]
  rw [List.span_eq_takeWhile_dropWhile, List.takeWhile_append_of_pos h, List.dropWhile_append_of_pos h,
    hdrop.1, hdrop.2, List.append_nil]

theorem span_all_digits (h : ∀ c ∈ cs, c.isDigit = true) : cs.span Char.isDigit = (cs, []) := by
  have hspan : (cs ++ []).span Char.isDigit = (cs, []) := span_digits h nofun
  rwa [List.append_nil] at hspan

/-- The decimal that digits with an optional fraction stand for. -/
theorem decimal?_whole (h : IsDigits cs) : decimal? cs = some ⟨Nat.ofDigitChars 10 cs 0, 0⟩ := by
  unfold decimal?
  simp only [span_all_digits h.2, List.isEmpty_eq_false_iff.2 h.1, Bool.false_and, Bool.false_eq_true,
    if_false, List.append_nil, natOfDigits?_eq h.2]
  rfl

theorem decimal?_fraction (hc : IsDigits cs) (hd : ∀ d ∈ ds, d.isDigit = true) :
    decimal? (cs ++ '.' :: ds) = some ⟨Nat.ofDigitChars 10 (cs ++ ds) 0, -ds.length⟩ := by
  have hspan : (cs ++ '.' :: ds).span Char.isDigit = (cs, '.' :: ds) :=
    span_digits hc.2 fun c ds e => by cases e; decide
  have hall : ∀ c ∈ cs ++ ds, c.isDigit = true := List.forall_mem_append.2 ⟨hc.2, hd⟩
  unfold decimal?
  simp only [hspan, span_all_digits hd, List.isEmpty_eq_false_iff.2 hc.1, Bool.false_and,
    Bool.false_eq_true, if_false, natOfDigits?_eq hall]
  show some (Decimal.mk _ (0 - (ds.length : Int))) = _
  rw [zero_sub]

/-! ### Reading a decimal that is written out -/

/-- The text of a decimal is read as a decimal of the same value. -/
theorem decimal?_positional (d : Decimal) :
    ∃ d', decimal? d.positional.toList = some d' ∧ d'.value = d.value := by
  obtain ⟨hne, hall⟩ := isDigits_toDigits d.digits
  obtain ⟨hpos, htext⟩ | ⟨hneg, whole, fraction, zeros, htext, hdigits, hwhole, hlength⟩ :=
    positional_cases d
  · obtain ⟨k, hk⟩ := Int.eq_ofNat_of_zero_le hpos
    have hplain : IsDigits (Nat.toDigits 10 d.digits ++ List.replicate d.exponent.toNat '0') :=
      ⟨by simp [hne], List.forall_mem_append.2 ⟨hall, forall_isDigit_replicate _⟩⟩
    rw [htext]
    refine ⟨_, decimal?_whole hplain, ?_⟩
    rw [Nat.ofDigitChars_append, Nat.ofDigitChars_ten_toDigits, Nat.ofDigitChars_replicate_zero,
      Decimal.value, Decimal.value, hk]
    simp [mul_comm]
  · have hboth : ∀ c ∈ whole ++ fraction, c.isDigit = true :=
      hdigits ▸ List.forall_mem_append.2 ⟨forall_isDigit_replicate _, hall⟩
    obtain ⟨hw, hf⟩ := List.forall_mem_append.1 hboth
    rw [htext]
    refine ⟨_, decimal?_fraction ⟨hwhole, hw⟩ hf, ?_⟩
    have hexponent : -(fraction.length : Int) = d.exponent := by omega
    rw [hdigits, Nat.ofDigitChars_append, Nat.ofDigitChars_replicate_zero, Nat.mul_zero,
      Nat.ofDigitChars_ten_toDigits, hexponent]

/-- A number without sign is read as a decimal. -/
theorem real?_plain (h : IsPlain cs) (hd : decimal? cs = some d) :
    real? cs = some (ofDecimal false d) := by
  obtain ⟨c, cs, rfl⟩ := List.exists_cons_of_ne_nil h.ne_nil
  have hdigit := h.isDigit_head
  unfold real?
  split
  rename_i hsign
  split at hsign
  · rename_i hcs
    exact absurd ((List.cons.inj hcs).1 ▸ hdigit) (by decide)
  · rename_i hcs
    exact absurd ((List.cons.inj hcs).1 ▸ hdigit) (by decide)
  · obtain ⟨rfl, rfl⟩ := Prod.mk.inj hsign
    rw [hd]

/-- After a leading zero there is no mark of another base. -/
theorem parse?_plain {s : String} (h : IsPlain s.toList) (hd : decimal? s.toList = some d) :
    parse? s = some (ofDecimal false d) := by
  have hreal := real?_plain h hd
  unfold parse?
  split
  · rename_i mark digits hs
    have hmark := h.isDigit_or_point mark (by simp [hs])
    split <;> first | exact hreal | exact absurd hmark (by decide)
  · exact hreal

/-! ### Rounding a decimal -/

/-- Rounding a fraction near a double that is not negative gives the double. -/
theorem nearest_eq {num den : Nat} (h : decode f = .finite false m q) (hm : 0 < m) (hden : 0 < den)
    (hnear : IsNear m q (num / den)) : nearest false num den = f := by
  obtain ⟨hc, hbits⟩ := toBits_of_decode h
  rw [nearest, nearestBits_eq hc hm hden hnear, ← hbits, if_neg (by decide), Nat.zero_add,
    UInt64.ofNat_toNat, Float.ofBits_toBits]

/-- The number of digits in front of the point gives the size of a decimal. -/
theorem Decimal.value_bounds (h : 0 < d.digits) :
    (10 : ℚ) ^ (digitCount d.digits + d.exponent - 1) ≤ d.value ∧
      d.value < 10 ^ (digitCount d.digits + d.exponent) := by
  obtain ⟨hlow, hhigh⟩ := ten_zpow_digitCount h
  have hten : (10 : ℚ) ≠ 0 := by norm_num
  have hpow : (0 : ℚ) < 10 ^ d.exponent := by positivity
  constructor
  · rw [add_sub_right_comm, zpow_add₀ hten]
    exact mul_le_mul_of_nonneg_right hlow hpow.le
  · rw [zpow_add₀ hten]
    exact mul_lt_mul_of_pos_right hhigh hpow

theorem two_zpow_lt_ten_zpow : (2 : ℚ) ^ (1200 : Int) < 10 ^ (400 : Int) := by
  calc (2 : ℚ) ^ (1200 : Int) = (2 ^ (3 : Int)) ^ (400 : Int) := zpow_mul 2 3 400
    _ < 10 ^ (400 : Int) := zpow_lt_zpow_left₀ (by norm_num) (by positivity) (by norm_num)

/-- The numbers near a finite double are neither too small nor too large to be looked at. -/
theorem IsNear.size {x : ℚ} (h : IsNear m q x) (hc : IsCanonical m q) (hm : 0 < m) :
    10 ^ (-400 : Int) < x ∧ x < 10 ^ (400 : Int) := by
  have hreach := reachBelow_le m q
  have hone : (1 : ℚ) ≤ m := by exact_mod_cast hm
  constructor
  · calc (10 : ℚ) ^ (-400 : Int) = (10 ^ (400 : Int))⁻¹ := zpow_neg 10 400
      _ < (2 ^ (1200 : Int))⁻¹ := inv_strictAnti₀ (by positivity) two_zpow_lt_ten_zpow
      _ = 2 ^ (-1200 : Int) := (zpow_neg 2 1200).symm
      _ ≤ 2 ^ (-1 + q) := zpow_le_zpow_right₀ one_le_two (by have := hc.least; omega)
      _ = 1 / 2 * 2 ^ q := by rw [zpow_add₀ two_ne_zero, zpow_neg_one, one_div]
      _ ≤ (m - reachBelow m q) * 2 ^ q := by gcongr; linarith
      _ ≤ x := h.bounds.1
  · calc x < 2 ^ (53 + q) := h.lt hc
      _ ≤ 2 ^ (1200 : Int) := zpow_le_zpow_right₀ one_le_two (by have := hc.greatest; omega)
      _ < 10 ^ (400 : Int) := two_zpow_lt_ten_zpow

/-- A decimal near a double that is not negative is rounded to it. -/
theorem ofDecimal_eq (h : decode f = .finite false m q) (hm : 0 < m) (hnear : IsNear m q d.value) :
    ofDecimal false d = f := by
  obtain ⟨hc, -⟩ := toBits_of_decode h
  obtain ⟨hsmall, hlarge⟩ := hnear.size hc hm
  have hdigits : 0 < d.digits := by
    refine Nat.pos_of_ne_zero fun hzero => ?_
    have hpos := hnear.pos hm
    rw [Decimal.value, hzero, Nat.cast_zero, zero_mul] at hpos
    exact lt_irrefl _ hpos
  obtain ⟨hlow, hhigh⟩ := Decimal.value_bounds hdigits
  have hleast := (zpow_lt_zpow_iff_right₀ (by norm_num)).1 (hsmall.trans hhigh)
  have hgreatest := (zpow_lt_zpow_iff_right₀ (by norm_num)).1 (hlow.trans_lt hlarge)
  have hvalue : d.value = d.digits * 10 ^ d.exponent := rfl
  unfold ofDecimal
  rw [if_neg (by simp; omega), if_neg (by omega)]
  split
  · obtain ⟨k, hk⟩ := Int.eq_ofNat_of_zero_le ‹0 ≤ d.exponent›
    refine nearest_eq h hm Nat.one_pos ?_
    rw [hvalue, hk] at hnear
    rw [hk]
    push_cast
    simpa using hnear
  · obtain ⟨k, hk⟩ : ∃ k : Nat, d.exponent = -k := ⟨(-d.exponent).toNat, by omega⟩
    refine nearest_eq h hm (Nat.pow_pos (by decide)) ?_
    rw [hvalue, hk] at hnear
    rw [hk]
    simpa [div_eq_mul_inv] using hnear

/-- The text of a finite double that is not negative is read as the double again. -/
theorem readsBack_of_decode (h : decode f = .finite false m q) : ReadsBack f := by
  refine ⟨⟨m, q, h⟩, ?_⟩
  have htext : text f = if m = 0 then "0" else (shortest m q).positional := by
    rw [text, h]
    rfl
  obtain ⟨hc, hbits⟩ := toBits_of_decode h
  rcases Nat.eq_zero_or_pos m with rfl | hm
  · have hq : bitsOf 0 q = 0 := by
      rw [hc.normal.resolve_left (by decide)]
      rfl
    have hzero : ofDecimal false ⟨0, 0⟩ = f := by
      rw [← Float.ofBits_toBits f, ← UInt64.ofNat_toNat (x := f.toBits), hbits, hq]
      rfl
    rw [htext, if_pos rfl]
    exact congrArg some hzero
  · obtain ⟨d, hd, hvalue⟩ := decimal?_positional (shortest m q)
    rw [htext, if_neg hm.ne', parse?_plain (isPlain_positional _) hd]
    exact congrArg some (ofDecimal_eq h hm (hvalue ▸ isNear_shortest hm hc.mantissa q))

end TypeStrip.Number
