import TypeStrip.Number.Value

/-!
Decimal text of a double: the fewest digits that read back as the same double, written out
without an exponent.
-/
namespace TypeStrip.Number

/-- The decimal number `digits · 10^exponent`. -/
structure Decimal where
  digits : Nat
  exponent : Int
deriving DecidableEq, Repr

/-- The open or closed interval of the reals that round to a double, and the double itself,
as numerators over one denominator. -/
structure Neighbourhood where
  low : Nat
  value : Nat
  high : Nat
  den : Nat
  closed : Bool

/-- The neighbourhood of `m · 2^q`. Its ends belong to it when `m` is even, and just above a
power of two the lower half is half as wide. -/
def neighbourhood (m : Nat) (q : Int) : Neighbourhood :=
  let below := if m = Nat.pow 2 52 ∧ q > -1074 then 1 else 2
  let (num, den) := ratio 1 (q - 2)
  ⟨(4 * m - below) * num, 4 * m * num, (4 * m + 2) * num, den, m % 2 == 0⟩

def Neighbourhood.has (n : Neighbourhood) (num den : Nat) : Bool :=
  if n.closed then n.low * den ≤ num * n.den && num * n.den ≤ n.high * den
  else n.low * den < num * n.den && num * n.den < n.high * den

/-- The better of the two multiples of `10^p` next to the value, if one lies in the
neighbourhood: the nearer of the two, and of two equally near the larger. -/
def Neighbourhood.onGrid? (n : Neighbourhood) (p : Int) : Option Decimal :=
  let (num, den) : Nat × Nat :=
    if 0 ≤ p then (Nat.pow 10 p.toNat, 1) else (1, Nat.pow 10 (-p).toNat)
  let floor := n.value * den / (n.den * num)
  let lower := n.has (floor * num) den
  let upper := n.has ((floor + 1) * num) den
  let upperNearer := 2 * n.value * den ≥ (2 * floor + 1) * num * n.den
  if upper && (upperNearer || !lower) then some ⟨floor + 1, p⟩
  else if lower then some ⟨floor, p⟩
  else none

/-- The first hit on the grids `10^p`, `10^(p-1)`, …, at most `fuel` of them. -/
def Neighbourhood.search (n : Neighbourhood) : Nat → Int → Decimal
  | 0, p => ⟨n.value, p⟩
  | fuel + 1, p => (n.onGrid? p).getD (n.search fuel (p - 1))

def digitCount (n : Nat) : Nat := (Nat.toDigits 10 n).length

/-- The shortest decimal that rounds to `m · 2^q`, for `m` not zero. No double needs more than
seventeen digits, and the search starts at most two places above the first of them. -/
def shortest (m : Nat) (q : Int) : Decimal :=
  let n := neighbourhood m q
  n.search 20 ((digitCount n.value : Int) - digitCount n.den + 1)

def Decimal.positional (d : Decimal) : String :=
  let digits := Nat.toDigits 10 d.digits
  if 0 ≤ d.exponent then
    String.ofList (digits ++ List.replicate d.exponent.toNat '0')
  else
    let places := (-d.exponent).toNat
    let padded := List.replicate (places + 1 - digits.length) '0' ++ digits
    let whole := padded.length - places
    String.ofList (padded.take whole ++ '.' :: padded.drop whole)

def text (x : Float) : String :=
  match decode x with
  | .nan => "NaN"
  | .infinite negative => if negative then "-inf" else "inf"
  | .finite negative m q =>
    let magnitude := if m = 0 then "0" else (shortest m q).positional
    if negative then "-" ++ magnitude else magnitude

end TypeStrip.Number
