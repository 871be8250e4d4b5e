import Mathlib.Algebra.Order.Field.Power
import Mathlib.Algebra.Order.Field.Rat
import Mathlib.Tactic.FieldSimp
import Mathlib.Tactic.Linarith
import Mathlib.Tactic.NormNum
import Mathlib.Tactic.Positivity
import Mathlib.Tactic.Ring
import TypeStrip.Number.Rounding

/-!
Rounding in exact arithmetic: a fraction that lies closer to one double than to its neighbours is
rounded to that double.
-/
namespace TypeStrip.Number

variable {num den k m : Nat} {p q : Int} {x : ℚ}

/-! ### Integers -/

/-- An integer to which a number is rounded. Half way between two of them it is the even one. -/
def RoundsToNat (x : ℚ) (k : Nat) : Prop :=
  (k - 1 / 2 < x ∧ x < k + 1 / 2) ∨ (k % 2 = 0 ∧ k - 1 / 2 ≤ x ∧ x ≤ k + 1 / 2)

theorem RoundsToNat.bounds (h : RoundsToNat x k) : k - 1 / 2 ≤ x ∧ x ≤ k + 1 / 2 := by
  rcases h with ⟨hlow, hhigh⟩ | ⟨-, h⟩
  · exact ⟨hlow.le, hhigh.le⟩
  · exact h

/-- The quotient with the remainder as its fractional part. -/
theorem div_eq_quotient_add (hden : 0 < den) :
    (num : ℚ) / den = (num / den : Nat) + (num % den : Nat) / den := by
  have hdenQ : (den : ℚ) ≠ 0 := by exact_mod_cast hden.ne'
  rw [eq_comm, ← eq_sub_iff_add_eq', div_eq_iff hdenQ, sub_mul, div_mul_cancel₀ _ hdenQ,
    eq_sub_iff_add_eq]
  exact_mod_cast Nat.mod_add_div' num den

theorem roundHalfEven_eq (hden : 0 < den) (h : RoundsToNat (num / den) k) :
    roundHalfEven num den = k := by
  have hdenQ : (0 : ℚ) < den := by exact_mod_cast hden
  rw [div_eq_quotient_add hden] at h
  have hrest : (num % den : Nat) / (den : ℚ) < 1 := by
    rw [div_lt_one hdenQ]
    exact_mod_cast Nat.mod_lt num hden
  have hrest0 : 0 ≤ (num % den : Nat) / (den : ℚ) := by positivity
  have hhalf : 2 * (num % den) < den ↔ (num % den : Nat) / (den : ℚ) < 1 / 2 := by
    rw [div_lt_div_iff₀ hdenQ two_pos, one_mul, mul_comm]
    exact_mod_cast Iff.rfl
  have hhalf' : den < 2 * (num % den) ↔ 1 / 2 < (num % den : Nat) / (den : ℚ) := by
    rw [div_lt_div_iff₀ two_pos hdenQ, one_mul, mul_comm _ (2 : ℚ)]
    exact_mod_cast Iff.rfl
  unfold roundHalfEven
  generalize (num % den : Nat) / (den : ℚ) = r at *
  generalize num / den = quotient at *
  generalize num % den = rest at *
  have hk : k = quotient ∨ k = quotient + 1 := by
    obtain ⟨hlow, hhigh⟩ := h.bounds
    have hle : (quotient : ℚ) < (k + 1 : Nat) := by push_cast; linarith
    have hge : (k : ℚ) < (quotient + 2 : Nat) := by push_cast; linarith
    have hle' : quotient < k + 1 := by exact_mod_cast hle
    have hge' : k < quotient + 2 := by exact_mod_cast hge
    omega
  simp only [Bool.or_eq_true, Bool.and_eq_true, decide_eq_true_eq, beq_iff_eq]
  rcases hk with rfl | rfl
  · rw [if_neg]
    rcases h with ⟨-, hhigh⟩ | ⟨heven, -, hhigh⟩
    · have hlt := hhalf.2 (by linarith)
      omega
    · have hnot : ¬den < 2 * rest := mt hhalf'.1 (by linarith)
      omega
  · rw [if_pos]
    simp only [RoundsToNat, Nat.cast_add, Nat.cast_one] at h
    rcases h with ⟨hlow, -⟩ | ⟨heven, hlow, -⟩
    · exact .inl (hhalf'.2 (by linarith))
    · have hnot : ¬2 * rest < den := mt hhalf.1 (by linarith)
      omega

/-! ### Powers of two -/

theorem scaleDown_spec (num : Nat) (hden : 0 < den) (q : Int) :
    0 < (scaleDown num den q).2 ∧
      ((scaleDown num den q).1 : ℚ) / (scaleDown num den q).2 = num / den / 2 ^ q := by
  unfold scaleDown
  have hpow (n : Nat) : 0 < Nat.pow 2 n := Nat.two_pow_pos n
  split
  · rename_i hq
    obtain ⟨n, rfl⟩ := Int.eq_ofNat_of_zero_le hq
    refine ⟨Nat.mul_pos hden (hpow _), ?_⟩
    simp [Nat.cast_pow, div_div]
  · obtain ⟨n, rfl⟩ : ∃ n : Nat, q = -n := ⟨(-q).toNat, by omega⟩
    refine ⟨hden, ?_⟩
    simp [div_eq_mul_inv, mul_right_comm]

/-- The exponent of a number: that of the last binary place of a double next to it. -/
structure IsBinade (x : ℚ) (q : Int) : Prop where
  least : -1074 ≤ q
  high : x < 2 ^ (53 + q)
  low : 2 ^ (52 + q) ≤ x ∨ q = -1074

theorem lt_of_two_zpow_lt {a b : Int} (h : (2 : ℚ) ^ a < 2 ^ b) : a < b :=
  (zpow_lt_zpow_iff_right₀ one_lt_two).1 h

theorem IsBinade.unique (h : IsBinade x p) (h' : IsBinade x q) : p = q := by
  have hle {p q : Int} (h : IsBinade x p) (h' : IsBinade x q) : p ≤ q := by
    have hleast := h'.least
    rcases h.low with hlow | rfl
    · have hlt := lt_of_two_zpow_lt (hlow.trans_lt h'.high)
      omega
    · exact hleast
  exact le_antisymm (hle h h') (hle h' h)

/-- A number lies between the powers of two on both sides of its logarithm. -/
theorem two_zpow_log2_le (h : 0 < num) :
    (2 : ℚ) ^ (num.log2 : Int) ≤ num ∧ (num : ℚ) < 2 ^ (num.log2 + 1 : Int) := by
  constructor
  · rw [zpow_natCast]
    exact_mod_cast Nat.log2_self_le h.ne'
  · rw [← Nat.cast_add_one, zpow_natCast]
    exact_mod_cast Nat.lt_log2_self

/-- A quotient lies between powers of two that its numerator and its denominator tell. -/
theorem div_between_two_zpow (hnum : 0 < num) (hden : 0 < den) :
    (2 : ℚ) ^ (num.log2 - den.log2 - 1 : Int) < num / den ∧
      (num : ℚ) / den < 2 ^ (num.log2 - den.log2 + 1 : Int) := by
  have hdenQ : (0 : ℚ) < den := by exact_mod_cast hden
  obtain ⟨hnumLow, hnumHigh⟩ := two_zpow_log2_le hnum
  obtain ⟨hdenLow, hdenHigh⟩ := two_zpow_log2_le hden
  constructor
  · rw [lt_div_iff₀ hdenQ]
    calc (2 : ℚ) ^ (num.log2 - den.log2 - 1 : Int) * den
        < 2 ^ (num.log2 - den.log2 - 1 : Int) * 2 ^ (den.log2 + 1 : Int) := by gcongr
      _ = 2 ^ (num.log2 : Int) := by rw [← zpow_add₀ two_ne_zero]; congr 1; ring
      _ ≤ num := hnumLow
  · rw [div_lt_iff₀ hdenQ]
    calc (num : ℚ) < 2 ^ (num.log2 + 1 : Int) := hnumHigh
      _ = 2 ^ (num.log2 - den.log2 + 1 : Int) * 2 ^ (den.log2 : Int) := by
        rw [← zpow_add₀ two_ne_zero]; congr 1; ring
      _ ≤ 2 ^ (num.log2 - den.log2 + 1 : Int) * den := by gcongr

/-- The exponent that would use all places of the mantissa, or the least one. -/
theorem isBinade_max (hlow : 2 ^ (52 + q) ≤ x) (hhigh : x < 2 ^ (53 + q)) :
    IsBinade x (max (-1074) q) := by
  refine ⟨le_max_left _ _, hhigh.trans_le ?_, ?_⟩
  · exact zpow_le_zpow_right₀ one_le_two (by omega)
  · rcases le_total (-1074) q with h | h
    · exact .inl (by rwa [max_eq_right h])
    · exact .inr (max_eq_left h)

theorem isBinade_binade (hnum : 0 < num) (hden : 0 < den) :
    IsBinade (num / den) (binade num den) := by
  obtain ⟨hlow, hhigh⟩ := div_between_two_zpow hnum hden
  obtain ⟨guess, hguess⟩ : ∃ guess : Int, (num.log2 : Int) - den.log2 - 52 = guess := ⟨_, rfl⟩
  have hbinade : binade num den = max (-1074)
      (if (scaleDown num den guess).1 < Nat.pow 2 52 * (scaleDown num den guess).2 then guess - 1
        else guess) := hguess ▸ rfl
  rw [show (num.log2 - den.log2 - 1 : Int) = 52 + (guess - 1) by omega] at hlow
  rw [show (num.log2 - den.log2 + 1 : Int) = 53 + guess by omega] at hhigh
  obtain ⟨hpos, hscaled⟩ := scaleDown_spec num hden guess
  rw [hbinade]
  generalize (num : ℚ) / den = x at *
  generalize (scaleDown num den guess).1 = n, (scaleDown num den guess).2 = d at *
  have hposQ : (0 : ℚ) < d := by exact_mod_cast hpos
  have hless : n < Nat.pow 2 52 * d ↔ x < 2 ^ (52 + guess) := by
    rw [zpow_add₀ two_ne_zero, ← div_lt_iff₀ (by positivity), ← hscaled, div_lt_iff₀ hposQ]
    exact_mod_cast Iff.rfl
  split
  · rename_i h
    refine isBinade_max hlow.le ?_
    rw [show 53 + (guess - 1) = 52 + guess by ring]
    exact hless.1 h
  · rename_i h
    exact isBinade_max (not_lt.1 fun hlt => h (hless.2 hlt)) hhigh

/-! ### The nearest double -/

/-- The mantissas and exponents of finite doubles: a mantissa that does not use all its places goes
with the least exponent. -/
structure IsCanonical (m : Nat) (q : Int) : Prop where
  mantissa : m < 2 ^ 53
  least : -1074 ≤ q
  greatest : q ≤ 971
  normal : 2 ^ 52 ≤ m ∨ q = -1074

/-- How far the neighbourhood of `m · 2^q` reaches below it, in units of the last place. Just above
a power of two the next double is half as far. -/
def reachBelow (m : Nat) (q : Int) : ℚ := if m = 2 ^ 52 ∧ q > -1074 then 1 / 4 else 1 / 2

theorem reachBelow_le (m : Nat) (q : Int) : reachBelow m q ≤ 1 / 2 := by
  unfold reachBelow
  split <;> norm_num

/-- Whether a number lies closer to `m · 2^q` than to the doubles on both sides of it. The ends
belong to it when `m` is even. -/
def IsNear (m : Nat) (q : Int) (x : ℚ) : Prop :=
  ((m - reachBelow m q) * 2 ^ q < x ∧ x < (m + 1 / 2) * 2 ^ q) ∨
    (m % 2 = 0 ∧ (m - reachBelow m q) * 2 ^ q ≤ x ∧ x ≤ (m + 1 / 2) * 2 ^ q)

theorem IsNear.bounds (h : IsNear m q x) :
    (m - reachBelow m q) * 2 ^ q ≤ x ∧ x ≤ (m + 1 / 2) * 2 ^ q := by
  rcases h with ⟨hlow, hhigh⟩ | ⟨-, h⟩
  · exact ⟨hlow.le, hhigh.le⟩
  · exact h

theorem IsNear.pos (h : IsNear m q x) (hm : 0 < m) : 0 < x := by
  have hreach := reachBelow_le m q
  have hone : (1 : ℚ) ≤ m := by exact_mod_cast hm
  have hgap : 0 < m - reachBelow m q := by linarith
  exact lt_of_lt_of_le (by positivity) h.bounds.1

/-- In units of the last place the numbers near `m · 2^q` are rounded to `m`. -/
theorem IsNear.roundsToNat (h : IsNear m q x) : RoundsToNat (x / 2 ^ q) m := by
  have hpow : (0 : ℚ) < 2 ^ q := by positivity
  have hreach := reachBelow_le m q
  rcases h with ⟨hlow, hhigh⟩ | ⟨heven, hlow, hhigh⟩
  · refine .inl ⟨lt_of_le_of_lt (by linarith) ((lt_div_iff₀ hpow).2 hlow), (div_lt_iff₀ hpow).2 hhigh⟩
  · exact .inr ⟨heven, le_trans (by linarith) ((le_div_iff₀ hpow).2 hlow), (div_le_iff₀ hpow).2 hhigh⟩

theorem IsNear.lt (h : IsNear m q x) (hc : IsCanonical m q) : x < 2 ^ (53 + q) := by
  have hm : (m : ℚ) + 1 ≤ 2 ^ 53 := by exact_mod_cast hc.mantissa
  calc x ≤ (m + 1 / 2) * 2 ^ q := h.bounds.2
    _ < 2 ^ 53 * 2 ^ q := by gcongr; linarith
    _ = 2 ^ (53 + q) := by rw [zpow_add₀ two_ne_zero]; norm_num

/-- A number near `m · 2^q` has the exponent `q`, or it lies below a power of two, is rounded up to
it and has the exponent below. -/
theorem IsNear.isBinade (h : IsNear m q x) (hc : IsCanonical m q) :
    IsBinade x q ∨ (m = 2 ^ 52 ∧ IsBinade x (q - 1) ∧ RoundsToNat (x / 2 ^ (q - 1)) (2 ^ 53)) := by
  have hpow : (0 : ℚ) < 2 ^ q := by positivity
  by_cases hq : IsBinade x q
  · exact .inl hq
  have hbelow : ¬(2 ^ (52 + q) ≤ x ∨ q = -1074) := fun hlow => hq ⟨hc.least, h.lt hc, hlow⟩
  obtain ⟨hlt, hne⟩ := not_or.1 hbelow
  have hlt : x < 2 ^ 52 * 2 ^ q := by
    rw [zpow_add₀ two_ne_zero] at hlt
    exact_mod_cast not_le.1 hlt
  have hlow := h.bounds.1
  have hm : m = 2 ^ 52 := by
    have hreach := reachBelow_le m q
    have hlt' : (m : ℚ) - reachBelow m q < 2 ^ 52 := lt_of_mul_lt_mul_right (hlow.trans_lt hlt) hpow.le
    have hle : (m : ℚ) < (2 ^ 52 + 1 : Nat) := by push_cast; linarith
    have hle' : m < 2 ^ 52 + 1 := by exact_mod_cast hle
    exact le_antisymm (Nat.lt_succ_iff.1 hle') (hc.normal.resolve_right hne)
  have hleast := hc.least
  have hgap : reachBelow m q = 1 / 4 := if_pos ⟨hm, by omega⟩
  rw [hgap, hm] at hlow
  push_cast at hlow
  have hhalf : (2 : ℚ) ^ q = 2 ^ (q - 1) * 2 := by rw [← zpow_add_one₀ two_ne_zero, sub_add_cancel]
  have hpow' : (0 : ℚ) < 2 ^ (q - 1) := by positivity
  rw [hhalf] at hlow hlt
  refine .inr ⟨hm, ⟨by omega, ?_, .inl ?_⟩, .inr ⟨rfl, ?_, ?_⟩⟩
  · calc x < _ := hlt
      _ = 2 ^ (53 + (q - 1)) := by rw [zpow_add₀ two_ne_zero 53]; ring
  · calc (2 : ℚ) ^ (52 + (q - 1)) = 2 ^ 52 * 2 ^ (q - 1) := by rw [zpow_add₀ two_ne_zero]; norm_num
      _ ≤ (2 ^ 52 - 1 / 4) * (2 ^ (q - 1) * 2) := by nlinarith
      _ ≤ x := hlow
  · rw [le_div_iff₀ hpow']
    push_cast
    linarith
  · rw [div_le_iff₀ hpow']
    push_cast
    linarith

/-- The bits of `m · 2^q`. The implicit leading bit of a normal number carries into the exponent. -/
def bitsOf (m : Nat) (q : Int) : Nat := (q + 1074).toNat * Nat.pow 2 52 + m

theorem nearestBits_eq_of_isBinade (hnum : 0 < num) (hden : 0 < den) (hq : IsBinade (num / den) q)
    (hk : RoundsToNat (num / den / 2 ^ q) k) :
    nearestBits num den = min infinityBits (bitsOf k q) := by
  obtain ⟨hpos, hscaled⟩ := scaleDown_spec num hden q
  rw [← hscaled] at hk
  have hround := roundHalfEven_eq hpos hk
  rw [nearestBits, if_neg hnum.ne', (isBinade_binade hnum hden).unique hq, bitsOf, ← hround]

theorem bitsOf_lt (hc : IsCanonical m q) : bitsOf m q < infinityBits := by
  have hm := hc.mantissa
  have hgreatest := hc.greatest
  have hq : (q + 1074).toNat ≤ 2045 := by omega
  have hpow : Nat.pow 2 52 = 4503599627370496 := by norm_num
  rw [bitsOf, infinityBits, hpow]
  norm_num at hm
  omega

/-- A fraction near a double is rounded to it. -/
theorem nearestBits_eq (hc : IsCanonical m q) (hm : 0 < m) (hden : 0 < den)
    (h : IsNear m q (num / den)) : nearestBits num den = bitsOf m q := by
  have hdenQ : (0 : ℚ) < den := by exact_mod_cast hden
  have hnum : 0 < num := by
    have hnumQ := (div_pos_iff_of_pos_right hdenQ).1 (h.pos hm)
    exact_mod_cast hnumQ
  rcases h.isBinade hc with hq | ⟨hm, hq, hk⟩
  · rw [nearestBits_eq_of_isBinade hnum hden hq h.roundsToNat, min_eq_right (bitsOf_lt hc).le]
  · have hcarry : bitsOf (2 ^ 53) (q - 1) = bitsOf m q := by
      have hleast := hq.least
      have hsucc : (q + 1074).toNat = (q - 1 + 1074).toNat + 1 := by omega
      rw [bitsOf, bitsOf, hm, hsucc]
      norm_num
      ring
    rw [nearestBits_eq_of_isBinade hnum hden hq hk, hcarry, min_eq_right (bitsOf_lt hc).le]

/-! ### The numbers that doubles stand for -/

variable {f : Float}

/-- A finite double of either sign has a canonical mantissa and exponent. -/
theorem isCanonical_of_decode {negative : Bool} (h : decode f = .finite negative m q) :
    IsCanonical m q := by
  have hpow : Nat.pow 2 52 = 4503599627370496 := by norm_num
  simp only [decode, hpow] at h
  split at h
  · split at h <;> simp at h
  · split at h
    · simp only [Value.finite.injEq] at h
      obtain ⟨-, rfl, rfl⟩ := h
      exact ⟨by norm_num; omega, le_refl _, by norm_num, .inr rfl⟩
    · simp only [Value.finite.injEq] at h
      obtain ⟨-, rfl, rfl⟩ := h
      exact ⟨by norm_num; omega, by omega, by norm_num at *; omega, .inl (by norm_num)⟩

/-- A finite double that is not negative has the bits of the number that it stands for. -/
theorem toBits_of_decode (h : decode f = .finite false m q) :
    IsCanonical m q ∧ f.toBits.toNat = bitsOf m q := by
  refine ⟨isCanonical_of_decode h, ?_⟩
  have hpow : Nat.pow 2 52 = 4503599627370496 := by norm_num
  have hpow' : Nat.pow 2 63 = 9223372036854775808 := by norm_num
  have hlt := f.toBits.toNat_lt
  simp only [decode, hpow, hpow'] at h
  generalize f.toBits.toNat = bits at *
  norm_num at h hlt
  rw [bitsOf, hpow]
  split at h
  · split at h <;> simp at h
  · split at h
    · simp only [Value.finite.injEq, beq_eq_false_iff_ne] at h
      obtain ⟨hsign, rfl, rfl⟩ := h
      omega
    · simp only [Value.finite.injEq, beq_eq_false_iff_ne] at h
      obtain ⟨hsign, rfl, rfl⟩ := h
      omega

end TypeStrip.Number
