/-! What a double stands for, in integers. -/
namespace TypeStrip.Number

/-- A double read as a number: `finite negative m q` is `m · 2^q`, negated when `negative`. -/
inductive Value where
  | finite (negative : Bool) (m : Nat) (q : Int)
  | infinite (negative : Bool)
  | nan
deriving DecidableEq, Repr

/-- The number that a double stands for. Subnormal numbers keep the least exponent, and the
sign of zero is kept. -/
def decode (x : Float) : Value :=
  let bits := x.toBits.toNat
  let negative := bits / Nat.pow 2 63 == 1
  let exponent : Nat := bits / Nat.pow 2 52 % Nat.pow 2 11
  let fraction : Nat := bits % Nat.pow 2 52
  if exponent = 2047 then if fraction = 0 then .infinite negative else .nan
  else if exponent = 0 then .finite negative fraction (-1074)
  else .finite negative (Nat.pow 2 52 + fraction) ((exponent : Int) - 1075)

def ratio (m : Nat) (q : Int) : Nat × Nat :=
  if 0 ≤ q then (m * Nat.pow 2 q.toNat, 1) else (m, Nat.pow 2 (-q).toNat)

/-- The integer part: a number without one, such as an infinity, gives nothing. -/
def truncate? : Value → Option Int
  | .finite negative m q =>
    let (num, den) := ratio m q
    some (if negative then -((num / den : Nat) : Int) else (num / den : Nat))
  | _ => none

def isInteger : Value → Bool
  | .finite _ m q => let (num, den) := ratio m q; num % den == 0
  | _ => false

end TypeStrip.Number
