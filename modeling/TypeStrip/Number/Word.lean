import TypeStrip.Number.Rounding

/-! Arithmetic on doubles beyond the four basic operations: 32-bit words and remainders. -/
namespace TypeStrip.Number

/-- The 32-bit word of a number: its integer part modulo `2^32`, and zero where it has none. -/
def word (x : Float) : BitVec 32 := BitVec.ofInt 32 ((truncate? (decode x)).getD 0)

/-- A shift count. Only the lowest five bits of a word are looked at. -/
def shiftCount (x : Float) : Nat := (word x).toNat % 32

def ofSigned (w : BitVec 32) : Float := ofInt w.toInt

def ofUnsigned (w : BitVec 32) : Float := ofInt w.toNat

/-- What is left of `m · 2^q` after taking away `n · 2^r` as often as possible, as a fraction. -/
def remainderRatio (m : Nat) (q : Int) (n : Nat) (r : Int) : Nat × Nat :=
  let least := min q r
  ratio (m * Nat.pow 2 (q - least).toNat % (n * Nat.pow 2 (r - least).toNat)) least

/-- The remainder of a division that rounds toward zero. It has the sign of the dividend. -/
def remainder (x y : Float) : Float :=
  match decode x, decode y with
  | .finite negative m q, .finite _ n r =>
    if n = 0 then 0.0 / 0.0
    else
      let (num, den) := remainderRatio m q n r
      nearest negative num den
  | .finite .., .infinite _ => x
  | _, _ => 0.0 / 0.0

end TypeStrip.Number
