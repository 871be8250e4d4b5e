import TypeStrip.Lowering.Constant
import TypeStrip.Proofs.Numbers.Integers

/-!
Constant expressions of integers. The operators on bits take integers modulo `2^32` and shift counts
modulo 32, and give signed integers, apart from the unsigned shift; an expression that is built with
them from integers is folded to the integer that it stands for.
-/
namespace TypeStrip.Lowering
open TypeStrip.Number

variable {known : List (String × Constant)} {x y : Float} {a b : Int} {e : Expr}

/-! ### Integers of 32 bits -/

def toUint32 (a : Int) : Nat := (a % 2 ^ 32).toNat

/-- An integer modulo `2^32`, with the highest of the 32 bits as a sign. -/
def toInt32 (a : Int) : Int := if toUint32 a < 2 ^ 31 then toUint32 a else toUint32 a - 2 ^ 32

theorem toUint32_lt (a : Int) : toUint32 a < 2 ^ 32 := by
  unfold toUint32
  omega

theorem toInt32_bounds (a : Int) : -2 ^ 31 ≤ toInt32 a ∧ toInt32 a < 2 ^ 31 := by
  have hlt := toUint32_lt a
  unfold toInt32
  split <;> omega

theorem toUint32_natCast {n : Nat} (h : n < 2 ^ 32) : toUint32 n = n := by
  unfold toUint32
  omega

/-- A word with the bits of an integer stands for it as a signed integer. -/
theorem toInt_eq_toInt32 {w : BitVec 32} (h : w.toNat = toUint32 a) : w.toInt = toInt32 a := by
  rw [BitVec.toInt_eq_toNat_cond, h, toInt32]
  split <;> split <;> omega

/-- A word with a sign is that word without one, with the highest bit as a sign. -/
theorem toInt_eq_toInt32_toNat (w : BitVec 32) : w.toInt = toInt32 w.toNat :=
  toInt_eq_toInt32 (toUint32_natCast w.isLt).symm

/-- The word of an integer, without and with a sign. -/
theorem word_integer (h : IsInt x a) : (word x).toNat = toUint32 a ∧ (word x).toInt = toInt32 a := by
  have hnat : (word x).toNat = toUint32 a := by
    rw [h.word_eq, BitVec.toNat_ofInt]
    rfl
  exact ⟨hnat, toInt_eq_toInt32 hnat⟩

/-- A sign does not change a product modulo `2^32`. -/
theorem toUint32_toInt32_mul (a : Int) (n : Nat) :
    toUint32 (toInt32 a * n) = toUint32 a * n % 2 ^ 32 := by
  have hmod : toInt32 a % 2 ^ 32 = toUint32 a % 2 ^ 32 := by
    unfold toInt32
    split <;> omega
  have hproduct : toInt32 a * n % 2 ^ 32 = (toUint32 a * n % 2 ^ 32 : Nat) := by
    rw [Int.mul_emod, hmod, ← Int.mul_emod]
    norm_cast
  rw [toUint32, hproduct, Int.toNat_natCast]

/-! ### Operators -/

inductive BitwiseOp where
  | or | and | xor | shiftLeft | shiftRight | shiftRightUnsigned
deriving DecidableEq

def BitwiseOp.binary : BitwiseOp → BinaryOp
  | .or => .bitOr
  | .and => .bitAnd
  | .xor => .bitXor
  | .shiftLeft => .shiftLeft
  | .shiftRight => .shiftRight
  | .shiftRightUnsigned => .shiftRightUnsigned

/-- What an operator gives for two integers. A shift to the left multiplies by a power of two, and
one to the right divides by it and rounds down. -/
def BitwiseOp.apply : BitwiseOp → Int → Int → Int
  | .or, a, b => toInt32 (toUint32 a ||| toUint32 b : Nat)
  | .and, a, b => toInt32 (toUint32 a &&& toUint32 b : Nat)
  | .xor, a, b => toInt32 (toUint32 a ^^^ toUint32 b : Nat)
  | .shiftLeft, a, b => toInt32 (toInt32 a * 2 ^ (toUint32 b % 32))
  | .shiftRight, a, b => toInt32 a / 2 ^ (toUint32 b % 32)
  | .shiftRightUnsigned, a, b => (toUint32 a / 2 ^ (toUint32 b % 32) : Nat)

def complement (a : Int) : Int := -toInt32 a - 1

theorem BitwiseOp.natAbs_apply_le (op : BitwiseOp) (a b : Int) : (op.apply a b).natAbs ≤ 2 ^ 53 := by
  have hsigned (a : Int) : (toInt32 a).natAbs ≤ 2 ^ 53 := by
    have hbounds := toInt32_bounds a
    omega
  cases op with
  | or | and | xor | shiftLeft => exact hsigned _
  | shiftRight => exact (Int.natAbs_ediv_le_natAbs _ _).trans (hsigned a)
  | shiftRightUnsigned =>
    have hle := Nat.div_le_self (toUint32 a) (2 ^ (toUint32 b % 32))
    have hlt := toUint32_lt a
    rw [apply, Int.natAbs_natCast]
    omega

/-- An operator on integers is folded to what it gives for them. -/
theorem foldNumeric?_bitwise (op : BitwiseOp) (hx : IsInt x a) (hy : IsInt y b) :
    foldNumeric? op.binary x y = some (ofInt (op.apply a b)) := by
  obtain ⟨hxnat, hxint⟩ := word_integer hx
  obtain ⟨hynat, hyint⟩ := word_integer hy
  have hcount : shiftCount y = toUint32 b % 32 := by rw [shiftCount, hynat]
  cases op with
  | or =>
    have hw : (word x ||| word y).toInt = toInt32 (toUint32 a ||| toUint32 b : Nat) := by
      rw [toInt_eq_toInt32_toNat, BitVec.toNat_or, hxnat, hynat]
    exact congrArg (some ∘ ofInt) hw
  | and =>
    have hw : (word x &&& word y).toInt = toInt32 (toUint32 a &&& toUint32 b : Nat) := by
      rw [toInt_eq_toInt32_toNat, BitVec.toNat_and, hxnat, hynat]
    exact congrArg (some ∘ ofInt) hw
  | xor =>
    have hw : (word x ^^^ word y).toInt = toInt32 (toUint32 a ^^^ toUint32 b : Nat) := by
      rw [toInt_eq_toInt32_toNat, BitVec.toNat_xor, hxnat, hynat]
    exact congrArg (some ∘ ofInt) hw
  | shiftLeft =>
    have hw : (word x <<< shiftCount y).toNat = toUint32 (toInt32 a * 2 ^ (toUint32 b % 32)) := by
      rw [BitVec.toNat_shiftLeft, hxnat, hcount, Nat.shiftLeft_eq, ← toUint32_toInt32_mul]
      push_cast
      rfl
    exact congrArg (some ∘ ofInt) (toInt_eq_toInt32 hw)
  | shiftRight =>
    have hw : ((word x).sshiftRight (shiftCount y)).toInt = toInt32 a / 2 ^ (toUint32 b % 32) := by
      rw [BitVec.toInt_sshiftRight, hxint, hcount, Int.shiftRight_eq_div_pow]
      push_cast
      rfl
    exact congrArg (some ∘ ofInt) hw
  | shiftRightUnsigned =>
    have hw : (word x >>> shiftCount y).toNat = toUint32 a / 2 ^ (toUint32 b % 32) := by
      rw [BitVec.toNat_ushiftRight, hxnat, hcount, Nat.shiftRight_eq_div_pow]
    exact congrArg (fun n : Nat => some (ofInt n)) hw

/-- The complement of an integer is folded to the integer below its negation. -/
theorem foldUnary?_bitNot (hx : IsInt x a) :
    foldUnary? .bitNot x = some (ofInt (complement a)) := by
  obtain ⟨hxnat, -⟩ := word_integer hx
  have hlt := toUint32_lt a
  have hw : (~~~word x).toInt = complement a := by
    rw [BitVec.toInt_eq_toNat_cond, BitVec.toNat_not, hxnat, complement, toInt32]
    split <;> split <;> omega
  exact congrArg (some ∘ ofInt) hw

/-! ### Expressions -/

/-- Expressions that are built with the operators on bits from literals and earlier members whose
values are integers, each with the integer that it stands for. -/
inductive HasInteger (known : List (String × Constant)) : Expr → Int → Prop where
  | literal {span x a} : IsInt x a → HasInteger known (.literal span (.number x)) a
  | member {span name x a} : known.lookup name = some (.number x) → IsInt x a →
      HasInteger known (.ident span name) a
  | paren {span e a} : HasInteger known e a → HasInteger known (.paren span e) a
  | complement {span e a} : HasInteger known e a →
      HasInteger known (.unary span .bitNot e) (complement a)
  | binary {span e e' a b} (op : BitwiseOp) : HasInteger known e a → HasInteger known e' b →
      HasInteger known (.binary span e op.binary e') (op.apply a b)

theorem isInt_apply (op : BitwiseOp) (a b : Int) : IsInt (ofInt (op.apply a b)) (op.apply a b) :=
  isInt_ofInt (op.natAbs_apply_le a b)

theorem isInt_complement (a : Int) : IsInt (ofInt (complement a)) (complement a) := by
  have hbounds := toInt32_bounds a
  refine isInt_ofInt ?_
  unfold complement
  omega

/-- An expression of integers is folded to the integer that it stands for. -/
theorem fold?_of_hasInteger (h : HasInteger known e a) :
    ∃ x, fold? known e = some (.number x) ∧ IsInt x a := by
  induction h with
  | literal hx => exact ⟨_, rfl, hx⟩
  | member hknown hx => exact ⟨_, hknown, hx⟩
  | paren _ ih => exact ih
  | complement _ ih =>
    obtain ⟨x, hfold, hx⟩ := ih
    refine ⟨_, ?_, isInt_complement _⟩
    rw [fold?, hfold]
    exact congrArg (Option.map Constant.number) (foldUnary?_bitNot hx)
  | binary op _ _ iha ihb =>
    obtain ⟨x, hfold, hx⟩ := iha
    obtain ⟨y, hfold', hy⟩ := ihb
    refine ⟨_, ?_, isInt_apply op _ _⟩
    rw [fold?, hfold, hfold']
    exact congrArg (Option.map Constant.number) (foldNumeric?_bitwise op hx hy)

/-- Folding agrees with the integers: a word is an integer modulo `2^32`, without or with a sign; an
operator on two integers gives the double of its result; and so does every expression of integers. -/
theorem fold?_integers (known : List (String × Constant)) :
    (∀ x a, IsInt x a → (word x).toNat = toUint32 a ∧ (word x).toInt = toInt32 a) ∧
      (∀ (op : BitwiseOp) x y a b, IsInt x a → IsInt y b →
        foldNumeric? op.binary x y = some (ofInt (op.apply a b)) ∧
          IsInt (ofInt (op.apply a b)) (op.apply a b)) ∧
      ∀ e a, HasInteger known e a → ∃ x, fold? known e = some (.number x) ∧ IsInt x a :=
  ⟨fun _ _ h => word_integer h,
    fun op _ _ a b hx hy => ⟨foldNumeric?_bitwise op hx hy, isInt_apply op a b⟩,
    fun _ _ h => fold?_of_hasInteger h⟩

/-- The complement of an earlier member, which is negative, after a shift by more than 31 places. -/
theorem fold?_integers_shift :
    let known := [("A", Constant.number (ofInt (-5)))]
    let e : Expr := .unary default .bitNot (.paren default
      (.binary default (.ident default "A") .shiftRightUnsigned (.literal default (.number (ofInt 33)))))
    IsInt (ofInt (-5)) (-5) ∧ IsInt (ofInt 33) 33 ∧ HasInteger known e (-2147483646) ∧
      (word (ofInt (-5))).toNat = 4294967291 ∧
      foldNumeric? .shiftRightUnsigned (ofInt (-5)) (ofInt 33) = some (ofInt 2147483645) ∧
      ∃ x, fold? known e = some (.number x) ∧ IsInt x (-2147483646) := by
  intro known e
  have hA : IsInt (ofInt (-5)) (-5) := isInt_ofInt (by decide)
  have hcount : IsInt (ofInt 33) 33 := isInt_ofInt (by decide)
  have he : HasInteger known e (-2147483646) :=
    .complement (.paren (.binary .shiftRightUnsigned (.member rfl hA) (.literal hcount)))
  obtain ⟨hword, hnumeric, hfold⟩ := fold?_integers known
  exact ⟨hA, hcount, he, (hword _ _ hA).1, (hnumeric .shiftRightUnsigned _ _ _ _ hA hcount).1,
    hfold e _ he⟩

end TypeStrip.Lowering
