import TypeStrip.Number.Value

/-! Rounding an exact fraction to the nearest double. -/
namespace TypeStrip.Number

/-- `num / den` rounded to the nearest integer, a half going to the even neighbour. -/
def roundHalfEven (num den : Nat) : Nat :=
  let quotient := num / den
  let twice := 2 * (num % den)
  if twice > den || (twice == den && quotient % 2 == 1) then quotient + 1 else quotient

def scaleDown (num den : Nat) (q : Int) : Nat × Nat :=
  if 0 ≤ q then (num, den * Nat.pow 2 q.toNat) else (num * Nat.pow 2 (-q).toNat, den)

/-- The exponent `q` for which `num / den` lies in `[2^(52+q), 2^(53+q))`, or the least
exponent of a double where that is larger. -/
def binade (num den : Nat) : Int :=
  let guess : Int := (num.log2 : Int) - den.log2 - 52
  let (n, d) := scaleDown num den guess
  max (-1074) (if n < Nat.pow 2 52 * d then guess - 1 else guess)

def infinityBits : Nat := 2047 * Nat.pow 2 52

/-- The bits of the double nearest to the fraction `num / den`. The mantissa is added to the
exponent field and not joined to it, so that a mantissa rounded up to `2^53` carries. -/
def nearestBits (num den : Nat) : Nat :=
  if num = 0 then 0
  else
    let q := binade num den
    let (n, d) := scaleDown num den q
    min infinityBits ((q + 1074).toNat * Nat.pow 2 52 + roundHalfEven n d)

def nearest (negative : Bool) (num den : Nat) : Float :=
  let sign := if negative then Nat.pow 2 63 else 0
  Float.ofBits (UInt64.ofNat (sign + nearestBits num den))

def ofInt (i : Int) : Float := nearest (i < 0) i.natAbs 1

end TypeStrip.Number
