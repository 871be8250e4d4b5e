import TypeStrip.Number.Word
import TypeStrip.Proofs.Numbers.Nearest
import TypeStrip.Proofs.Numbers.Shortest

/-!
Doubles that are integers. Integers of at most `2^53` are doubles, and the 32-bit word of an integer
is the integer modulo `2^32`.
-/
namespace TypeStrip.Number

variable {n : Nat} {i : Int} {x : Float}

/-! ### Integers as doubles -/

/-- A double whose value is an integer. Zero is the value of both zeros. -/
def IsInt (x : Float) (i : Int) : Prop := (decode x).rational? = some (i : ℚ)

/-- A natural number of at most `2^53` has a mantissa and an exponent. -/
theorem exists_isCanonical (hpos : 0 < n) (hmax : n ≤ 2 ^ 53) :
    ∃ m q, 0 < m ∧ IsCanonical m q ∧ (m * 2 ^ q : ℚ) = n := by
  rcases Nat.lt_or_eq_of_le hmax with hlt | rfl
  · have hlog : n.log2 ≤ 52 := by
      have := (Nat.log2_lt hpos.ne').2 hlt
      omega
    obtain ⟨k, hk⟩ := Nat.exists_eq_add_of_le hlog
    have hlow : 2 ^ 52 ≤ n * 2 ^ k := by
      rw [hk, pow_add]
      exact Nat.mul_le_mul_right _ (Nat.log2_self_le hpos.ne')
    have hhigh : n * 2 ^ k < 2 ^ 53 := by
      rw [show 53 = n.log2 + 1 + k by omega, pow_add]
      exact Nat.mul_lt_mul_of_pos_right Nat.lt_log2_self (Nat.two_pow_pos k)
    refine ⟨n * 2 ^ k, -k, by omega, ⟨hhigh, by omega, by omega, .inl hlow⟩, ?_⟩
    rw [zpow_neg, zpow_natCast]
    push_cast
    exact mul_inv_cancel_right₀ (by positivity) _
  · exact ⟨2 ^ 52, 1, by norm_num, ⟨by norm_num, by norm_num, by norm_num, .inl le_rfl⟩, by norm_num⟩

theorem isNear_self (m : Nat) (q : Int) : IsNear m q (m * 2 ^ q) := by
  have hpow : (0 : ℚ) < 2 ^ q := by positivity
  have hreach : 0 < reachBelow m q := by
    unfold reachBelow
    split <;> norm_num
  exact .inl ⟨by gcongr; linarith, by gcongr; linarith⟩

/-- A natural number of at most `2^53` is kept as it is. -/
theorem decode_nearest_natCast (h : n ≤ 2 ^ 53) (negative : Bool) :
    ∃ m q, decode (nearest negative n 1) = .finite negative m q ∧ (m * 2 ^ q : ℚ) = n := by
  rcases Nat.eq_zero_or_pos n with rfl | hpos
  · exact ⟨0, -1074, decode_nearest_zero negative 1, by simp⟩
  · obtain ⟨m, q, hm, hc, hvalue⟩ := exists_isCanonical hpos h
    refine ⟨m, q, decode_nearest hc hm Nat.one_pos ?_ negative, hvalue⟩
    rw [Nat.cast_one, div_one, ← hvalue]
    exact isNear_self m q

theorem isInt_nearest (h : n ≤ 2 ^ 53) : IsInt (nearest false n 1) n := by
  obtain ⟨m, q, hdecode, hvalue⟩ := decode_nearest_natCast h false
  rw [IsInt, hdecode, Value.rational?, hvalue]
  rfl

/-- The double of an integer whose magnitude is at most `2^53` is that integer. -/
theorem isInt_ofInt (h : i.natAbs ≤ 2 ^ 53) : IsInt (ofInt i) i := by
  obtain ⟨m, q, hdecode, hvalue⟩ := decode_nearest_natCast h (decide (i < 0))
  rw [IsInt, ofInt, hdecode, Value.rational?, hvalue]
  have habs : (i.natAbs : ℚ) = |(i : ℚ)| := by rw [Nat.cast_natAbs, Int.cast_abs]
  congr 1
  simp only [decide_eq_true_eq]
  split
  · rename_i hneg
    rw [habs, abs_of_neg (by exact_mod_cast hneg), neg_neg]
  · rename_i hpos
    rw [habs, abs_of_nonneg (by exact_mod_cast not_lt.1 hpos)]

/-! ### The integer of a double -/

/-- The sign and the magnitude of an integer are those of its double. -/
theorem IsInt.decode_eq (h : IsInt x i) : ∃ negative m q, decode x = .finite negative m q ∧
    (m * 2 ^ q : ℚ) = i.natAbs ∧ (if negative then -(i.natAbs : Int) else i.natAbs) = i := by
  rw [IsInt] at h
  cases hx : decode x with
  | finite negative m q =>
    have hmag : (0 : ℚ) ≤ m * 2 ^ q := by positivity
    rw [hx, Value.rational?, Option.some.injEq] at h
    refine ⟨negative, m, q, rfl, ?_⟩
    have habs : (i.natAbs : ℚ) = |(i : ℚ)| := by rw [Nat.cast_natAbs, Int.cast_abs]
    rw [habs, ← h]
    cases negative with
    | true =>
      have hi : i ≤ 0 := by
        have hle : (i : ℚ) ≤ 0 := by rw [← h]; simpa using hmag
        exact_mod_cast hle
      simp only [if_true, abs_neg, abs_of_nonneg hmag, true_and]
      omega
    | false =>
      have hi : 0 ≤ i := by
        have hle : (0 : ℚ) ≤ i := by rw [← h]; simpa using hmag
        exact_mod_cast hle
      simp only [Bool.false_eq_true, if_false, abs_of_nonneg hmag, true_and]
      omega
  | infinite negative => simp [hx, Value.rational?] at h
  | nan => simp [hx, Value.rational?] at h

/-- An integer is its integer part, and nothing is left over. -/
theorem IsInt.truncate?_eq (h : IsInt x i) :
    truncate? (decode x) = some i ∧ isInteger (decode x) = true := by
  obtain ⟨negative, m, q, hx, hvalue, hsign⟩ := h.decode_eq
  obtain ⟨hden, hratio⟩ := ratio_spec m q
  have hdenQ : ((ratio m q).2 : ℚ) ≠ 0 := by exact_mod_cast hden.ne'
  have hnum : (ratio m q).1 = i.natAbs * (ratio m q).2 := by
    rw [hvalue, div_eq_iff hdenQ] at hratio
    exact_mod_cast hratio
  rw [hx]
  constructor
  · show some (if negative then -(((ratio m q).1 / (ratio m q).2 : Nat) : Int)
      else ((ratio m q).1 / (ratio m q).2 : Nat)) = some i
    rw [hnum, Nat.mul_div_cancel _ hden, hsign]
  · show ((ratio m q).1 % (ratio m q).2 == 0) = true
    rw [hnum, Nat.mul_mod_left]
    rfl

/-! ### Words -/

/-- The word of an integer is the integer modulo `2^32`. -/
theorem IsInt.word_eq (h : IsInt x i) : word x = BitVec.ofInt 32 i := by
  rw [word, h.truncate?_eq.1]
  rfl

end TypeStrip.Number
