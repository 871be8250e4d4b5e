import TypeStrip.Number.Reading

/-!
JSON values. Reading goes as far as a text is well formed, so a value may be broken off: what was
read before the fault can still be looked at in the order of the text.
-/
namespace TypeStrip

/-- A JSON value. A text has no value where its escapes are no characters. An array or object that
is not closed goes on with a fault, and so does the place of a broken value. -/
inductive Json where
  | null
  | boolean (value : Bool)
  | number (numeral : String)
  | string (value : Option String)
  | array (items : List Json) (closed : Bool)
  | object (members : List (Option String × Json)) (closed : Bool)
  | broken

namespace Json

mutual

def isWhole : Json → Bool
  | .broken => false
  | .array items closed => allWhole items && closed
  | .object members closed => membersWhole members && closed
  | _ => true

def allWhole : List Json → Bool
  | [] => true
  | v :: vs => v.isWhole && allWhole vs

def membersWhole : List (Option String × Json) → Bool
  | [] => true
  | (_, v) :: members => v.isWhole && membersWhole members

end

mutual

def depth : Json → Nat
  | .array items _ => depthOfItems items + 1
  | .object members _ => depthOfMembers members + 1
  | _ => 0

def depthOfItems : List Json → Nat
  | [] => 0
  | v :: vs => max v.depth (depthOfItems vs)

def depthOfMembers : List (Option String × Json) → Nat
  | [] => 0
  | (_, v) :: members => max v.depth (depthOfMembers members)

end

/-- Whether a numeral stands for a number that is not too large for a double. -/
def isFinite (numeral : String) : Bool :=
  match (Number.parse? numeral).map Number.decode with
  | some (.finite ..) => true
  | _ => false

/-- The natural number that a numeral without a sign, fraction and exponent stands for. -/
def natural? (numeral : String) : Option Nat := Number.natOfDigits? 10 numeral.toList

mutual

/-- Whether all texts of a value are characters, and all of its numbers finite. -/
def isSound : Json → Bool
  | .string s => s.isSome
  | .number n => isFinite n
  | .array items _ => allSound items
  | .object members _ => membersSound members
  | _ => true

def allSound : List Json → Bool
  | [] => true
  | v :: vs => v.isSound && allSound vs

def membersSound : List (Option String × Json) → Bool
  | [] => true
  | (key, v) :: members => key.isSome && v.isSound && membersSound members

end

end Json

end TypeStrip
