import Mathlib
import TypeStrip.Proofs.Numbers.Rounding

/-!
The double to which a fraction is rounded. Its bits are those of a mantissa and an exponent, which are
what it stands for, and no other double lies nearer to the fraction.
-/
namespace TypeStrip.Number

variable {num den m n : Nat} {p q : Int} {x : ℚ}

/-! ### Bits -/

open Float.Model Float.Model.UnpackedFloat in
/-- The bits of a double are kept, unless they have the exponent of the numbers that are none. -/
theorem toBits_ofBits {bits : UInt64} (h : bits.toNat / 2 ^ 52 % 2 ^ 11 ≠ 2047) :
    (Float.ofBits bits).toBits = bits := by
  have hexponent : @unpackExponent Format.binary64 bits.toBitVec ≠ -1 := by
    rw [unpackExponent_def, ne_eq, ← BitVec.toNat_inj, BitVec.extractLsb'_toNat,
      Nat.shiftRight_eq_div_pow]
    exact h
  have hvalid : Format.binary64.Valid bits.toBitVec := ⟨fun he => absurd he hexponent⟩
  exact UInt64.toBitVec_inj.1 (pack_unpack_of_valid hvalid)

def signBits (negative : Bool) : Nat := if negative then Nat.pow 2 63 else 0

/-- The double with the bits of `m · 2^q` and of a sign stands for that number. -/
theorem decode_ofBits (h : IsCanonical m q) (negative : Bool) :
    decode (Float.ofBits (UInt64.ofNat (signBits negative + bitsOf m q))) =
      .finite negative m q := by
  have hpow : Nat.pow 2 52 = 4503599627370496 := by norm_num
  have hpow' : Nat.pow 2 63 = 9223372036854775808 := by norm_num
  have hpow'' : Nat.pow 2 11 = 2048 := by norm_num
  obtain ⟨hm, hleast, hgreatest, hnormal⟩ := h
  norm_num at hm hnormal
  obtain ⟨e, rfl⟩ : ∃ e : Nat, q = e - 1074 := ⟨(q + 1074).toNat, by omega⟩
  obtain ⟨bits, hbits⟩ : ∃ bits, signBits negative + bitsOf m (e - 1074) = bits := ⟨_, rfl⟩
  have hsum : bits = (if negative then 9223372036854775808 else 0) + (e * 4503599627370496 + m) := by
    rw [← hbits, bitsOf, hpow, sub_add_cancel, Int.toNat_natCast, signBits]
  have hnat : (UInt64.ofNat bits).toNat = bits := by
    refine UInt64.toNat_ofNat_of_lt' (show bits < 18446744073709551616 from ?_)
    split at hsum <;> omega
  have hsign : (bits / 9223372036854775808 == 1) = negative := by
    rw [Bool.eq_iff_iff, beq_iff_eq]
    split at hsum <;> simp_all <;> omega
  rw [hbits, decode, toBits_ofBits (by rw [hnat]; split at hsum <;> omega), hnat]
  simp only [hpow, hpow', hpow'', hsign]
  -- The leading place of a normal mantissa is carried into the exponent.
  rcases lt_or_ge m 4503599627370496 with hsmall | hlarge
  · have hexponent : bits / 4503599627370496 % 2048 = 0 := by split at hsum <;> omega
    have hfraction : bits % 4503599627370496 = m := by split at hsum <;> omega
    have hzero : e = 0 := by omega
    rw [hexponent, hfraction, if_neg (by decide), if_pos rfl, hzero]
    rfl
  · have hexponent : bits / 4503599627370496 % 2048 = e + 1 := by split at hsum <;> omega
    have hfraction : 4503599627370496 + bits % 4503599627370496 = m := by split at hsum <;> omega
    rw [hexponent, hfraction, if_neg (by omega), if_neg (by omega)]
    congr 1
    push_cast
    ring

/-! ### Rounding -/

theorem exists_roundsToNat (h : 0 ≤ x) : ∃ k, RoundsToNat x k := by
  have hlow := Nat.floor_le h
  have hhigh := Nat.lt_floor_add_one x
  generalize ⌊x⌋₊ = k at hlow hhigh
  rcases lt_trichotomy x (k + 1 / 2) with hlt | heq | hgt
  · exact ⟨k, .inl ⟨by linarith, hlt⟩⟩
  · rcases Nat.mod_two_eq_zero_or_one k with heven | hodd
    · exact ⟨k, .inr ⟨heven, by linarith, heq.le⟩⟩
    · exact ⟨k + 1, .inr ⟨by omega, by push_cast; linarith, by push_cast; linarith⟩⟩
  · exact ⟨k + 1, .inl ⟨by push_cast; linarith, by push_cast; linarith⟩⟩

/-- The mantissa to which a number of the exponent is rounded is near to it. -/
theorem RoundsToNat.isNear (h : RoundsToNat (x / 2 ^ q) m) (hlow : 2 ^ 52 ≤ x / 2 ^ q) :
    IsNear m q x := by
  have hpow : (0 : ℚ) < 2 ^ q := by positivity
  have hreach : (m - reachBelow m q : ℚ) = m - 1 / 2 ∨ (m - reachBelow m q : ℚ) < x / 2 ^ q := by
    unfold reachBelow
    split
    · rename_i hm
      right
      rw [hm.1]
      push_cast
      linarith
    · exact .inl rfl
  unfold IsNear
  rw [← lt_div_iff₀ hpow, ← div_lt_iff₀ hpow, ← le_div_iff₀ hpow, ← div_le_iff₀ hpow]
  rcases hreach with hreach | hreach
  · rw [hreach]
    exact h
  · rcases h with ⟨-, hhigh⟩ | ⟨heven, -, hhigh⟩
    · exact .inl ⟨hreach, hhigh⟩
    · exact .inr ⟨heven, hreach.le, hhigh⟩

/-- Every fraction that is neither below one nor out of range lies near a double. -/
theorem exists_isNear (hnum : 0 < num) (hden : 0 < den) (hone : 1 ≤ (num : ℚ) / den)
    (hmax : (num : ℚ) / den < 2 ^ (1023 : Int)) :
    ∃ m q, 2 ^ 52 ≤ m ∧ IsCanonical m q ∧ IsNear m q (num / den) := by
  obtain ⟨q, hq⟩ : ∃ q, IsBinade ((num : ℚ) / den) q := ⟨_, isBinade_binade hnum hden⟩
  generalize (num : ℚ) / den = x at *
  have hpow : (0 : ℚ) < 2 ^ q := by positivity
  have hleast : 0 < 53 + q := by
    refine lt_of_two_zpow_lt ?_
    rw [zpow_zero]
    exact hone.trans_lt hq.high
  have hlow : 2 ^ (52 + q) ≤ x := hq.low.resolve_right (by omega)
  have hgreatest : 52 + q < 1023 := lt_of_two_zpow_lt (hlow.trans_lt hmax)
  clear hmax
  have hhigh := hq.high
  rw [zpow_add₀ two_ne_zero, ← le_div_iff₀ hpow] at hlow
  rw [zpow_add₀ two_ne_zero, ← div_lt_iff₀ hpow] at hhigh
  norm_cast at hlow hhigh
  obtain ⟨k, hk⟩ := exists_roundsToNat (x := x / 2 ^ q) (by positivity)
  obtain ⟨hklow, hkhigh⟩ := hk.bounds
  have hkleast : 2 ^ 52 ≤ k := by
    have hlt : ((2 ^ 52 : Nat) : ℚ) < (k + 1 : Nat) := by push_cast at *; linarith
    exact Nat.lt_succ_iff.1 (by exact_mod_cast hlt)
  have hkgreatest : k ≤ 2 ^ 53 := by
    have hlt : (k : ℚ) < (2 ^ 53 + 1 : Nat) := by push_cast at *; linarith
    exact Nat.lt_succ_iff.1 (by exact_mod_cast hlt)
  rcases Nat.lt_or_eq_of_le hkgreatest with hk53 | rfl
  · exact ⟨k, q, hkleast, ⟨hk53, by omega, by omega, .inl hkleast⟩,
      hk.isNear (by exact_mod_cast hlow)⟩
  · -- What is rounded up to the next power of two has half the mantissa and the next exponent.
    refine ⟨2 ^ 52, q + 1, le_rfl, ⟨by norm_num, by omega, by omega, .inl le_rfl⟩, .inr ⟨rfl, ?_, ?_⟩⟩
    · rw [reachBelow, if_pos ⟨rfl, by omega⟩, zpow_add_one₀ two_ne_zero]
      rw [le_div_iff₀ hpow] at hklow
      push_cast at *
      linarith
    · rw [zpow_add_one₀ two_ne_zero]
      rw [div_lt_iff₀ hpow] at hhigh
      push_cast at *
      linarith

/-- What a fraction near `m · 2^q` is rounded to. -/
theorem decode_nearest (hc : IsCanonical m q) (hm : 0 < m) (hden : 0 < den)
    (h : IsNear m q (num / den)) (negative : Bool) :
    decode (nearest negative num den) = .finite negative m q := by
  rw [← decode_ofBits hc negative, ← nearestBits_eq hc hm hden h]
  rfl

theorem decode_nearest_zero (negative : Bool) (den : Nat) :
    decode (nearest negative 0 den) = .finite negative 0 (-1074) :=
  decode_ofBits (m := 0) (q := -1074) ⟨by norm_num, le_rfl, by norm_num, .inr rfl⟩ negative

/-! ### Distances -/

/-- Between a double and the doubles on both sides of it there is none. -/
theorem IsCanonical.gap (hm : IsCanonical m q) (hn : IsCanonical n p) :
    n * 2 ^ p ≤ (m - 2 * reachBelow m q) * 2 ^ q ∨ (n * 2 ^ p : ℚ) = m * 2 ^ q ∨
      (m + 1 : ℚ) * 2 ^ q ≤ n * 2 ^ p := by
  have hpow : (0 : ℚ) < 2 ^ q := by positivity
  have hreach := reachBelow_le m q
  rcases le_or_gt q p with hle | hlt
  · -- The other double is a multiple of the last place of this one.
    obtain ⟨k, hk⟩ := Int.eq_ofNat_of_zero_le (Int.sub_nonneg_of_le hle)
    have hmultiple : (n * 2 ^ p : ℚ) = (n * 2 ^ k : Nat) * 2 ^ q := by
      rw [show p = k + q by omega, zpow_add₀ two_ne_zero, zpow_natCast]
      push_cast
      ring
    rw [hmultiple]
    generalize n * 2 ^ k = N
    rcases lt_trichotomy N m with hNm | rfl | hNm
    · have hNm' : (N : ℚ) + 1 ≤ m := by exact_mod_cast hNm
      exact .inl (by gcongr; linarith)
    · exact .inr (.inl rfl)
    · have hNm' : (m : ℚ) + 1 ≤ N := by exact_mod_cast hNm
      exact .inr (.inr (by gcongr))
  · left
    have hleast := hn.least
    have hmlow := hm.normal.resolve_right (by omega)
    have hn53 : (n : ℚ) ≤ 2 ^ 53 - 1 := by
      have hn' : (n : ℚ) + 1 ≤ (2 ^ 53 : Nat) := by exact_mod_cast hn.mantissa
      push_cast at hn'
      linarith
    have hhalf : (2 : ℚ) ^ p ≤ 2 ^ q / 2 := by
      rw [le_div_iff₀ two_pos, ← zpow_add_one₀ two_ne_zero]
      exact zpow_le_zpow_right₀ one_le_two (by omega)
    have hunit : (2 ^ 52 - 1 / 2 : ℚ) ≤ m - 2 * reachBelow m q := by
      rcases Nat.lt_or_eq_of_le hmlow with hmlow | hmlow
      · have hm' : ((2 ^ 52 : Nat) : ℚ) + 1 ≤ m := by exact_mod_cast hmlow
        push_cast at hm'
        linarith
      · rw [reachBelow, if_pos ⟨hmlow.symm, by omega⟩, ← hmlow]
        norm_num
    calc (n * 2 ^ p : ℚ) ≤ (2 ^ 53 - 1) * (2 ^ q / 2) := by gcongr
      _ = (2 ^ 52 - 1 / 2) * 2 ^ q := by ring
      _ ≤ (m - 2 * reachBelow m q) * 2 ^ q := by gcongr

/-- No double lies nearer to a number than the one that it is near to. -/
theorem IsNear.dist_le (h : IsNear m q x) (hm : IsCanonical m q) (hn : IsCanonical n p) :
    |m * 2 ^ q - x| ≤ |n * 2 ^ p - x| := by
  have hpow : (0 : ℚ) < 2 ^ q := by positivity
  have hreach : reachBelow m q * 2 ^ q ≤ 1 / 2 * 2 ^ q := by
    gcongr
    exact reachBelow_le m q
  have hreach0 : 0 ≤ reachBelow m q * 2 ^ q := by
    unfold reachBelow
    split <;> positivity
  obtain ⟨hlow, hhigh⟩ := h.bounds
  rw [sub_mul] at hlow
  rw [add_mul] at hhigh
  rcases hm.gap hn with hbelow | hsame | habove
  · rw [sub_mul, mul_assoc] at hbelow
    rw [abs_sub_comm (n * 2 ^ p : ℚ), abs_of_nonneg (a := x - n * 2 ^ p) (by linarith), abs_le]
    constructor <;> linarith
  · rw [hsame]
  · rw [add_mul] at habove
    rw [abs_of_nonneg (a := n * 2 ^ p - x) (by linarith), abs_le]
    constructor <;> linarith

def Value.rational? : Value → Option ℚ
  | .finite negative m q => some (if negative then -(m * 2 ^ q) else m * 2 ^ q)
  | _ => none

/-- A finite double such that no finite double is nearer to the number. -/
def IsNearest (f : Float) (x : ℚ) : Prop :=
  ∃ v, (decode f).rational? = some v ∧ ∀ g w, (decode g).rational? = some w → |v - x| ≤ |w - x|

/-- A natural number is rounded to the nearest double. -/
theorem isNearest_nearest (hmax : n < 2 ^ 1023) : IsNearest (nearest false n 1) n := by
  rcases Nat.eq_zero_or_pos n with rfl | hpos
  · refine ⟨0, by rw [decode_nearest_zero]; simp [Value.rational?], fun g w _ => ?_⟩
    simp
  have hone : 1 ≤ ((n : Nat) : ℚ) / (1 : Nat) := by
    rw [Nat.cast_one, div_one]
    exact_mod_cast hpos
  have hlt : ((n : Nat) : ℚ) / (1 : Nat) < 2 ^ (1023 : Int) := by
    rw [Nat.cast_one, div_one]
    exact_mod_cast hmax
  obtain ⟨m, q, hm, hc, hnear⟩ := exists_isNear hpos Nat.one_pos hone hlt
  clear hmax hlt
  have hdecode := decode_nearest hc (by omega) Nat.one_pos hnear false
  rw [Nat.cast_one, div_one] at hnear
  refine ⟨m * 2 ^ q, by rw [hdecode]; rfl, fun g w hw => ?_⟩
  cases hg : decode g with
  | finite sign k p =>
    have hdist := hnear.dist_le hc (isCanonical_of_decode hg)
    rw [hg, Value.rational?, Option.some.injEq] at hw
    subst hw
    split
    · have hk : (0 : ℚ) ≤ k * 2 ^ p := by positivity
      have hn : (0 : ℚ) ≤ n := by positivity
      rw [← abs_neg (-(k * 2 ^ p : ℚ) - n), abs_of_nonneg (a := -(-(k * 2 ^ p : ℚ) - n)) (by linarith)]
      exact hdist.trans (abs_le.2 ⟨by linarith, by linarith⟩)
    · exact hdist
  | infinite sign => simp [hg, Value.rational?] at hw
  | nan => simp [hg, Value.rational?] at hw

end TypeStrip.Number
