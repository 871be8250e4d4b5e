import TypeStrip.Number.Decimal
import TypeStrip.Proofs.Numbers.Rounding

/-!
The shortest decimal of a double is found within the given number of grids, and lies closer to the
double than to the doubles on both sides of it.
-/
namespace TypeStrip.Number

variable {m num den : Nat} {p q : Int} {n : Neighbourhood} {d : Decimal}

/-! ### Neighbourhoods -/

def Decimal.value (d : Decimal) : ℚ := d.digits * 10 ^ d.exponent

structure Neighbourhood.Around (n : Neighbourhood) (m : Nat) (q : Int) : Prop where
  den : 0 < n.den
  low : (n.low : ℚ) / n.den = (m - reachBelow m q) * 2 ^ q
  value : (n.value : ℚ) / n.den = m * 2 ^ q
  high : (n.high : ℚ) / n.den = (m + 1 / 2) * 2 ^ q
  closed : n.closed = (m % 2 == 0)

theorem ratio_spec (m : Nat) (q : Int) :
    0 < (ratio m q).2 ∧ ((ratio m q).1 : ℚ) / (ratio m q).2 = m * 2 ^ q := by
  unfold ratio
  split
  · rename_i hq
    obtain ⟨k, rfl⟩ := Int.eq_ofNat_of_zero_le hq
    exact ⟨Nat.one_pos, by simp⟩
  · obtain ⟨k, rfl⟩ : ∃ k : Nat, q = -k := ⟨(-q).toNat, by omega⟩
    exact ⟨Nat.two_pow_pos _, by simp [div_eq_mul_inv]⟩

theorem around_neighbourhood (hm : 0 < m) (q : Int) : (neighbourhood m q).Around m q := by
  obtain ⟨hden, hratio⟩ := ratio_spec 1 (q - 2)
  have hquarter : (2 : ℚ) ^ (q - 2) = 2 ^ q / 4 := by
    rw [zpow_sub₀ two_ne_zero]
    norm_num
  rw [Nat.cast_one, one_mul, hquarter] at hratio
  have hscale (k : Nat) : ((k * (ratio 1 (q - 2)).1 : Nat) : ℚ) / (ratio 1 (q - 2)).2 =
      k / 4 * 2 ^ q := by
    rw [Nat.cast_mul, mul_div_assoc, hratio]
    ring
  refine ⟨hden, (hscale _).trans ?_, (hscale _).trans ?_, (hscale _).trans ?_, rfl⟩
  · unfold reachBelow
    split
    · rw [if_pos ‹_›, Nat.cast_sub (by omega)]
      push_cast
      ring
    · rw [if_neg ‹_›, Nat.cast_sub (by omega)]
      push_cast
      ring
  · push_cast
    ring
  · push_cast
    ring

theorem Neighbourhood.Around.has_iff (h : n.Around m q) (hden : 0 < den) :
    n.has num den = true ↔ IsNear m q (num / den) := by
  have hdenQ : (0 : ℚ) < den := by exact_mod_cast hden
  have hnden : (0 : ℚ) < n.den := by exact_mod_cast h.den
  have hlow : n.low * den < num * n.den ↔ (m - reachBelow m q) * 2 ^ q < (num : ℚ) / den := by
    rw [← h.low, div_lt_div_iff₀ hnden hdenQ]
    exact_mod_cast Iff.rfl
  have hlow' : n.low * den ≤ num * n.den ↔ (m - reachBelow m q) * 2 ^ q ≤ (num : ℚ) / den := by
    rw [← h.low, div_le_div_iff₀ hnden hdenQ]
    exact_mod_cast Iff.rfl
  have hhigh : num * n.den < n.high * den ↔ (num : ℚ) / den < (m + 1 / 2) * 2 ^ q := by
    rw [← h.high, div_lt_div_iff₀ hdenQ hnden]
    exact_mod_cast Iff.rfl
  have hhigh' : num * n.den ≤ n.high * den ↔ (num : ℚ) / den ≤ (m + 1 / 2) * 2 ^ q := by
    rw [← h.high, div_le_div_iff₀ hdenQ hnden]
    exact_mod_cast Iff.rfl
  rw [Neighbourhood.has, h.closed, IsNear]
  by_cases heven : m % 2 = 0
  · rw [if_pos (beq_iff_eq.2 heven), Bool.and_eq_true, decide_eq_true_eq, decide_eq_true_eq, hlow',
      hhigh']
    refine ⟨fun hx => .inr ⟨heven, hx⟩, ?_⟩
    rintro (⟨hlt, hgt⟩ | ⟨-, hx⟩)
    · exact ⟨hlt.le, hgt.le⟩
    · exact hx
  · rw [if_neg (by simpa using heven), Bool.and_eq_true, decide_eq_true_eq, decide_eq_true_eq, hlow,
      hhigh]
    simp [heven]

/-! ### Grids -/

def tenPower (p : Int) : Nat × Nat :=
  if 0 ≤ p then (Nat.pow 10 p.toNat, 1) else (1, Nat.pow 10 (-p).toNat)

theorem tenPower_spec (p : Int) :
    0 < (tenPower p).1 ∧ 0 < (tenPower p).2 ∧ ((tenPower p).1 : ℚ) / (tenPower p).2 = 10 ^ p := by
  have hpow (k : Nat) : 0 < Nat.pow 10 k := Nat.pow_pos (by decide)
  unfold tenPower
  split
  · rename_i hp
    obtain ⟨k, rfl⟩ := Int.eq_ofNat_of_zero_le hp
    exact ⟨hpow _, Nat.one_pos, by simp⟩
  · obtain ⟨k, rfl⟩ : ∃ k : Nat, p = -k := ⟨(-p).toNat, by omega⟩
    exact ⟨Nat.one_pos, hpow _, by simp⟩

/-- The largest multiple of `10^p` that is no larger than the value. -/
def Neighbourhood.floor (n : Neighbourhood) (p : Int) : Nat :=
  n.value * (tenPower p).2 / (n.den * (tenPower p).1)

def Neighbourhood.hasMultiple (n : Neighbourhood) (p : Int) (k : Nat) : Bool :=
  n.has (k * (tenPower p).1) (tenPower p).2

theorem Neighbourhood.onGrid?_eq (n : Neighbourhood) (p : Int) :
    n.onGrid? p =
      if n.hasMultiple p (n.floor p + 1) && (decide (2 * n.value * (tenPower p).2 ≥
          (2 * n.floor p + 1) * (tenPower p).1 * n.den) || !n.hasMultiple p (n.floor p)) then
        some ⟨n.floor p + 1, p⟩
      else if n.hasMultiple p (n.floor p) then some ⟨n.floor p, p⟩ else none := rfl

/-- What is found on a grid is a multiple in the neighbourhood. -/
theorem Neighbourhood.of_onGrid? (h : n.onGrid? p = some d) :
    n.hasMultiple p d.digits = true ∧ d.exponent = p := by
  rw [n.onGrid?_eq] at h
  split at h
  · rename_i hupper
    cases h
    exact ⟨(Bool.and_eq_true_iff.1 hupper).1, rfl⟩
  · split at h
    · cases h
      exact ⟨‹_›, rfl⟩
    · exact absurd h nofun

/-- Something is found on a grid where the multiple above the value lies in the neighbourhood. -/
theorem Neighbourhood.isSome_onGrid? (h : n.hasMultiple p (n.floor p + 1) = true) :
    (n.onGrid? p).isSome = true := by
  rw [n.onGrid?_eq, h]
  cases n.hasMultiple p (n.floor p) with
  | true => split <;> rfl
  | false => simp

namespace Neighbourhood.Around

theorem hasMultiple_iff (h : n.Around m q) (k : Nat) :
    n.hasMultiple p k = true ↔ IsNear m q (k * 10 ^ p) := by
  obtain ⟨-, hden, hscale⟩ := tenPower_spec p
  rw [Neighbourhood.hasMultiple, h.has_iff hden, Nat.cast_mul, mul_div_assoc, hscale]

theorem isNear_of_onGrid? (h : n.Around m q) (hd : n.onGrid? p = some d) : IsNear m q d.value := by
  obtain ⟨hhas, rfl⟩ := Neighbourhood.of_onGrid? hd
  exact (h.hasMultiple_iff d.digits).1 hhas

/-- The value lies between two multiples. -/
theorem floor_bounds (h : n.Around m q) (p : Int) :
    n.floor p * 10 ^ p ≤ (m * 2 ^ q : ℚ) ∧ (m * 2 ^ q : ℚ) < (n.floor p + 1) * 10 ^ p := by
  obtain ⟨hnum, hden, hscale⟩ := tenPower_spec p
  have hndenQ : (0 : ℚ) < n.den := by exact_mod_cast h.den
  have hdenQ : (0 : ℚ) < (tenPower p).2 := by exact_mod_cast hden
  have hpos : 0 < n.den * (tenPower p).1 := Nat.mul_pos h.den hnum
  have hle : n.floor p * (n.den * (tenPower p).1) ≤ n.value * (tenPower p).2 :=
    Nat.div_mul_le_self _ _
  have hlt : n.value * (tenPower p).2 < (n.floor p + 1) * (n.den * (tenPower p).1) :=
    (Nat.div_lt_iff_lt_mul hpos).1 (Nat.lt_succ_self _)
  rw [← h.value, ← hscale, ← mul_div_assoc, ← mul_div_assoc, div_le_div_iff₀ hdenQ hndenQ,
    div_lt_div_iff₀ hndenQ hdenQ, mul_assoc, mul_assoc, mul_comm ((tenPower p).1 : ℚ)]
  exact ⟨by exact_mod_cast hle, by exact_mod_cast hlt⟩

/-- A grid that is less than half as wide as the last place of the double is hit. -/
theorem isSome_onGrid? (h : n.Around m q) (hp : (10 : ℚ) ^ p < 2 ^ q / 2) :
    (n.onGrid? p).isSome = true := by
  obtain ⟨hlow, hhigh⟩ := h.floor_bounds p
  have hreach : 0 ≤ reachBelow m q := by
    unfold reachBelow
    split <;> norm_num
  have hpow : (0 : ℚ) < 2 ^ q := by positivity
  refine Neighbourhood.isSome_onGrid? ((h.hasMultiple_iff _).2 (.inl ⟨?_, ?_⟩))
  · calc (m - reachBelow m q) * 2 ^ q ≤ (m : ℚ) * 2 ^ q := by gcongr; linarith
      _ < (n.floor p + 1) * 10 ^ p := hhigh
      _ = _ := by push_cast; rfl
  · calc ((n.floor p + 1 : Nat) : ℚ) * 10 ^ p = n.floor p * 10 ^ p + 10 ^ p := by push_cast; ring
      _ < m * 2 ^ q + 2 ^ q / 2 := add_lt_add_of_le_of_lt hlow hp
      _ = (m + 1 / 2) * 2 ^ q := by ring

/-- The search ends on the first grid that is hit, if there is one among those looked at. -/
theorem isNear_search (h : n.Around m q) {fuel i : Nat} (hi : i < fuel)
    (hhit : (n.onGrid? (p - i)).isSome = true) : IsNear m q (n.search fuel p).value := by
  induction fuel generalizing p i with
  | zero => exact absurd hi (Nat.not_lt_zero _)
  | succ fuel ih =>
    rw [Neighbourhood.search]
    cases hfound : n.onGrid? p with
    | some d => exact h.isNear_of_onGrid? hfound
    | none =>
      cases i with
      | zero =>
        rw [Nat.cast_zero, sub_zero, hfound] at hhit
        exact absurd hhit nofun
      | succ i =>
        refine ih (Nat.lt_of_succ_lt_succ hi) ?_
        rwa [sub_sub, add_comm 1, ← Nat.cast_succ]

end Neighbourhood.Around

/-! ### The search -/

/-- A number lies between the powers of ten on both sides of it. -/
theorem ten_zpow_digitCount (h : 0 < num) :
    (10 : ℚ) ^ (digitCount num - 1 : Int) ≤ num ∧ (num : ℚ) < 10 ^ (digitCount num : Int) := by
  have hpos : 0 < digitCount num := Nat.length_toDigits_pos
  constructor
  · rw [← Nat.cast_pred hpos, zpow_natCast]
    have hle : 10 ^ (digitCount num - 1) ≤ num := by
      rcases Nat.eq_or_lt_of_le hpos with hone | hone
      · rw [← hone]
        exact h
      · refine not_lt.1 fun hlt => ?_
        have hcount : digitCount num ≤ digitCount num - 1 :=
          (Nat.length_toDigits_le_iff (by decide) (by omega)).2 hlt
        omega
    exact_mod_cast hle
  · rw [zpow_natCast]
    have hlt : num < 10 ^ digitCount num :=
      (Nat.length_toDigits_le_iff (by decide) hpos).1 le_rfl
    exact_mod_cast hlt

/-- A fraction is larger than a power of ten that the digits of its numerator and its denominator
tell. -/
theorem ten_zpow_lt_div (hnum : 0 < num) (hden : 0 < den) :
    (10 : ℚ) ^ (digitCount num - digitCount den - 1 : Int) < num / den := by
  have hdenQ : (0 : ℚ) < den := by exact_mod_cast hden
  rw [lt_div_iff₀ hdenQ]
  calc (10 : ℚ) ^ (digitCount num - digitCount den - 1 : Int) * den
      < 10 ^ (digitCount num - digitCount den - 1 : Int) * 10 ^ (digitCount den : Int) := by
        gcongr
        exact (ten_zpow_digitCount hden).2
    _ = 10 ^ (digitCount num - 1 : Int) := by
        rw [← zpow_add₀ (by norm_num)]
        congr 1
        ring
    _ ≤ num := (ten_zpow_digitCount hnum).1

/-- The shortest decimal lies near the double that it is made for. -/
theorem isNear_shortest (hm : 0 < m) (hmax : m < 2 ^ 53) (q : Int) :
    IsNear m q (shortest m q).value := by
  have h := around_neighbourhood hm q
  rw [shortest]
  generalize neighbourhood m q = n at h
  have hvalue : 0 < n.value := by
    have hdenQ : (0 : ℚ) < n.den := by exact_mod_cast h.den
    have hpos : (0 : ℚ) < n.value / n.den := h.value ▸ by positivity
    have hnum := (div_pos_iff_of_pos_right hdenQ).1 hpos
    exact_mod_cast hnum
  refine h.isNear_search (i := 19) (by decide) (h.isSome_onGrid? ?_)
  have hlt := ten_zpow_lt_div hvalue h.den
  rw [h.value] at hlt
  generalize (digitCount n.value : Int) - digitCount n.den = count at hlt ⊢
  have hmQ : (m : ℚ) < 2 ^ 53 := by exact_mod_cast hmax
  have hpow : (0 : ℚ) < 2 ^ q := by positivity
  calc (10 : ℚ) ^ (count + 1 - (19 : Nat) : Int) = 10 ^ (count - 1) / 10 ^ 17 := by
        rw [show count + 1 - (19 : Nat) = count - 1 - 17 by push_cast; ring, zpow_sub₀ (by norm_num)]
        norm_num
    _ < m * 2 ^ q / 10 ^ 17 := by gcongr
    _ < 2 ^ 53 * 2 ^ q / 10 ^ 17 := by gcongr
    _ < 2 ^ q / 2 := by
        rw [div_lt_div_iff₀ (by norm_num) two_pos]
        nlinarith

end TypeStrip.Number
