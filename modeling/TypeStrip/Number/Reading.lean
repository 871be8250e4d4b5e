import TypeStrip.Number.Rounding
import TypeStrip.Number.Decimal

/-!
Reading number text: decimal numbers with an optional fraction and exponent, and unsigned
integers after one of the marks `0x`, `0o` and `0b`.
-/
namespace TypeStrip.Number

def digitValue? (c : Char) : Option Nat :=
  if '0' ≤ c ∧ c ≤ '9' then some (c.toNat - '0'.toNat)
  else if 'a' ≤ c ∧ c ≤ 'f' then some (c.toNat - 'a'.toNat + 10)
  else if 'A' ≤ c ∧ c ≤ 'F' then some (c.toNat - 'A'.toNat + 10)
  else none

def digitIn? (base : Nat) (c : Char) : Option Nat :=
  (digitValue? c).filter (· < base)

def natOfDigits? (base : Nat) (cs : List Char) : Option Nat :=
  cs.foldlM (fun n c => (digitIn? base c).map (n * base + ·)) 0

/-- An unsigned integer of at most 64 bits. A leading plus sign is accepted. -/
def word? (base : Nat) (cs : List Char) : Option Nat :=
  let digits := match cs with
    | '+' :: rest => rest
    | _ => cs
  if digits.isEmpty then none
  else (natOfDigits? base digits).filter (· < Nat.pow 2 64)

/-- The double nearest to `digits · 10^exponent`. Exponents far outside the range of a double
are answered without computing the power. -/
def ofDecimal (negative : Bool) (d : Decimal) : Float :=
  let size := (digitCount d.digits : Int) + d.exponent
  if d.digits = 0 || size < -400 then nearest negative 0 1
  else if size > 400 then nearest negative (Nat.pow 2 1024) 1
  else if 0 ≤ d.exponent then nearest negative (d.digits * Nat.pow 10 d.exponent.toNat) 1
  else nearest negative d.digits (Nat.pow 10 (-d.exponent).toNat)

/-- The exponent that follows the digits: nothing, or `e`, an optional sign and digits. -/
def exponent? : List Char → Option Int
  | [] => some 0
  | c :: rest =>
    if c = 'e' ∨ c = 'E' then
      let (negative, digits) := match rest with
        | '-' :: ds => (true, ds)
        | '+' :: ds => (false, ds)
        | ds => (false, ds)
      if digits.isEmpty then none
      else (natOfDigits? 10 digits).map fun n => if negative then -(n : Int) else n
    else none

/-- A decimal number without its sign. A digit before or after the point is needed. -/
def decimal? (cs : List Char) : Option Decimal :=
  let (whole, rest) := cs.span Char.isDigit
  let (fraction, rest) := match rest with
    | '.' :: ds => ds.span Char.isDigit
    | _ => ([], rest)
  if whole.isEmpty && fraction.isEmpty then none
  else do
    let digits ← natOfDigits? 10 (whole ++ fraction)
    let exponent ← exponent? rest
    pure ⟨digits, exponent - fraction.length⟩

/-- A decimal number, or a name of infinity or of a number that is none, in either case. -/
def real? (cs : List Char) : Option Float :=
  let (negative, body) := match cs with
    | '-' :: rest => (true, rest)
    | '+' :: rest => (false, rest)
    | _ => (false, cs)
  match decimal? body with
  | some d => some (ofDecimal negative d)
  | none =>
    let word := String.ofList (body.map Char.toLower)
    if word = "inf" ∨ word = "infinity" then some (ofDecimal negative ⟨1, 1000⟩)
    else if word = "nan" then some (0.0 / 0.0)
    else none

def parse? (s : String) : Option Float :=
  match s.toList with
  | '0' :: mark :: digits =>
    match mark with
    | 'x' | 'X' => (word? 16 digits).map fun n => nearest false n 1
    | 'o' | 'O' => (word? 8 digits).map fun n => nearest false n 1
    | 'b' | 'B' => (word? 2 digits).map fun n => nearest false n 1
    | _ => real? s.toList
  | cs => real? cs

end TypeStrip.Number
