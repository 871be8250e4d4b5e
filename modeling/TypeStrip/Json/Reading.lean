import TypeStrip.Json.Value
import TypeStrip.Text.Escape

/-! Reading JSON from text, in its strict form: without comments and trailing commas. -/
namespace TypeStrip.Json
open TypeStrip.Text

def isBlank (c : Char) : Bool := c == ' ' || c == '\n' || c == '\t' || c == '\r'

def skipBlanks (cs : List Char) : List Char := cs.dropWhile isBlank

/-! ### Texts -/

inductive Piece where
  | char (c : Char)
  | code (n : Nat)

def escapedChar? : Char → Option Char
  | '"' => some '"'
  | '\\' => some '\\'
  | '/' => some '/'
  | 'b' => some '\x08'
  | 'f' => some '\x0c'
  | 'n' => some '\n'
  | 'r' => some '\r'
  | 't' => some '\t'
  | _ => none

def pieces? : List Char → Option (List Piece × List Char)
  | [] => none
  | '"' :: cs => some ([], cs)
  | '\\' :: 'u' :: a :: b :: c :: d :: cs =>
    if [a, b, c, d].all isHexDigit then
      (pieces? cs).map fun (ps, rest) => (.code (hexCode [a, b, c, d]) :: ps, rest)
    else none
  | '\\' :: c :: cs => do
    let char ← escapedChar? c
    let (ps, rest) ← pieces? cs
    return (.char char :: ps, rest)
  | c :: cs =>
    if c.toNat < 0x20 || c == '\\' then none
    else (pieces? cs).map fun (ps, rest) => (.char c :: ps, rest)

def isHighHalf (n : Nat) : Bool := 0xD800 ≤ n && n < 0xDC00

def isLowHalf (n : Nat) : Bool := 0xDC00 ≤ n && n < 0xE000

/-- The characters that pieces stand for, if each half of a character has its other half. -/
def characters? : List Piece → Option (List Char)
  | [] => some []
  | .char c :: ps => (characters? ps).map (c :: ·)
  | .code n :: .code m :: ps =>
    if isHighHalf n then
      if isLowHalf m then
        (characters? ps).map (Char.ofNat (0x10000 + (n - 0xD800) * 0x400 + (m - 0xDC00)) :: ·)
      else none
    else if isLowHalf n then none
    else (characters? (.code m :: ps)).map (Char.ofNat n :: ·)
  | .code n :: ps =>
    if isHighHalf n || isLowHalf n then none else (characters? ps).map (Char.ofNat n :: ·)

/-! ### Numbers -/

def digits? (cs : List Char) : Option (List Char × List Char) :=
  let (ds, rest) := cs.span Char.isDigit
  if ds.isEmpty then none else some (ds, rest)

/-- The digits before a point. A zero stands alone. -/
def whole? : List Char → Option (List Char × List Char)
  | '0' :: cs => if (cs.head?.map Char.isDigit).getD false then none else some (['0'], cs)
  | cs => digits? cs

def fraction? : List Char → Option (List Char × List Char)
  | '.' :: cs => (digits? cs).map fun (ds, rest) => ('.' :: ds, rest)
  | cs => some ([], cs)

def exponent? : List Char → Option (List Char × List Char)
  | [] => some ([], [])
  | c :: cs =>
    if c == 'e' || c == 'E' then
      match cs with
      | '+' :: cs => (digits? cs).map fun (ds, rest) => ('e' :: ds, rest)
      | '-' :: cs => (digits? cs).map fun (ds, rest) => ('e' :: '-' :: ds, rest)
      | cs => (digits? cs).map fun (ds, rest) => ('e' :: ds, rest)
    else some ([], c :: cs)

def numeral? (cs : List Char) : Option (String × List Char) := do
  let (sign, cs) := match cs with
    | '-' :: cs => (['-'], cs)
    | cs => ([], cs)
  let (whole, cs) ← whole? cs
  let (fraction, cs) ← fraction? cs
  let (exponent, cs) ← exponent? cs
  return (String.ofList (sign ++ whole ++ fraction ++ exponent), cs)

/-! ### Values -/

/-- What is read, and what follows it unless there was a fault. -/
abbrev Reading (α : Type) := α × Option (List Char)

def scalar (cs : List Char) : Reading Json :=
  match cs with
  | '"' :: cs =>
    match pieces? cs with
    | some (ps, rest) => (.string ((characters? ps).map String.ofList), some rest)
    | none => (.broken, none)
  | 't' :: 'r' :: 'u' :: 'e' :: cs => (.boolean true, some cs)
  | 'f' :: 'a' :: 'l' :: 's' :: 'e' :: cs => (.boolean false, some cs)
  | 'n' :: 'u' :: 'l' :: 'l' :: cs => (.null, some cs)
  | cs =>
    match numeral? cs with
    | some (numeral, rest) => (.number numeral, some rest)
    | none => (.broken, none)

def key? (cs : List Char) : Option (Option String × List Char) :=
  match skipBlanks cs with
  | '"' :: cs => do
    let (ps, rest) ← pieces? cs
    match skipBlanks rest with
    | ':' :: rest => return ((characters? ps).map String.ofList, rest)
    | _ => none
  | _ => none

mutual

def value : Nat → List Char → Reading Json
  | 0, _ => (.broken, none)
  | fuel + 1, cs =>
    match skipBlanks cs with
    | '[' :: cs =>
      let (items, rest) := match skipBlanks cs with
        | ']' :: rest => ([], some rest)
        | cs => items fuel cs
      (.array items rest.isSome, rest)
    | '{' :: cs =>
      let (members, rest) := match skipBlanks cs with
        | '}' :: rest => ([], some rest)
        | cs => members fuel cs
      (.object members rest.isSome, rest)
    | cs => scalar cs

def items : Nat → List Char → Reading (List Json)
  | 0, _ => ([], none)
  | fuel + 1, cs =>
    match value fuel cs with
    | (v, none) => ([v], none)
    | (v, some rest) =>
      match skipBlanks rest with
      | ',' :: rest => let (vs, rest) := items fuel rest; (v :: vs, rest)
      | ']' :: rest => ([v], some rest)
      | _ => ([v], none)

def members : Nat → List Char → Reading (List (Option String × Json))
  | 0, _ => ([], none)
  | fuel + 1, cs =>
    match key? cs with
    | none => ([], none)
    | some (key, cs) =>
      match value fuel cs with
      | (v, none) => ([(key, v)], none)
      | (v, some rest) =>
        match skipBlanks rest with
        | ',' :: rest => let (ms, rest) := members fuel rest; ((key, v) :: ms, rest)
        | '}' :: rest => ([(key, v)], some rest)
        | _ => ([(key, v)], none)

end

/-- The value of a text, and whether nothing but blanks follows it. Every step of reading takes a
character or looks for a value behind a bracket. -/
def ofText (s : String) : Json × Bool :=
  let cs := s.toList
  match value (2 * cs.length + 2) cs with
  | (v, some rest) => (v, (skipBlanks rest).isEmpty)
  | (v, none) => (v, false)

end TypeStrip.Json
