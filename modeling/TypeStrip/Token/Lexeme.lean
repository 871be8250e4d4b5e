import TypeStrip.Text.Word
import TypeStrip.Text.Cooked
import TypeStrip.Text.Enclosure
import TypeStrip.Token.Kind

/-! The lexeme at the front of a text that starts with neither a blank nor a comment. -/
namespace TypeStrip.Token
open TypeStrip.Text TypeStrip.Number

structure Lexeme where
  kind : Kind
  value : String
  source : List Char

def wordLexeme (cs : List Char) : Lexeme :=
  let source := cs.takeWhile isWordPart
  let value := String.ofList source
  ⟨(Kind.ofWord? value).getD .identifier, value, source⟩

/-! ### Numbers -/

def digitRun (base : Nat) (cs : List Char) : List Char :=
  cs.takeWhile fun c => (digitIn? base c).isSome || c == '_'

def baseOfMark? : Char → Option Nat
  | 'x' | 'X' => some 16
  | 'o' | 'O' => some 8
  | 'b' | 'B' => some 2
  | _ => none

/-- Whether a point before the given text belongs to the number in front of it. It does not
before a second point, nor before the name of a property. -/
def takesPoint : List Char → Bool
  | [] => true
  | c :: _ => c != '.' && (!isLetter c || c == 'e' || c == 'E')

def fractionRun : List Char → List Char
  | '.' :: cs => if takesPoint cs then '.' :: digitRun 10 cs else []
  | _ => []

/-- The exponent at the front: its mark, an optional sign, and digits, of which there may be
none. -/
def exponentRun : List Char → List Char
  | mark :: cs =>
    if mark = 'e' ∨ mark = 'E' then
      match cs with
      | '+' :: ds => mark :: '+' :: digitRun 10 ds
      | '-' :: ds => mark :: '-' :: digitRun 10 ds
      | ds => mark :: digitRun 10 ds
    else []
  | [] => []

def withoutSeparators (cs : List Char) : List Char := cs.filter (· != '_')

/-- The value of a decimal number: no separators, and a small letter before the exponent. -/
def decimalValue (source : List Char) : String :=
  String.ofList ((withoutSeparators source).map fun c => if c = 'E' then 'e' else c)

def decimalLexeme (cs : List Char) : Lexeme :=
  let whole := digitRun 10 cs
  let rest := cs.drop whole.length
  let fraction := fractionRun rest
  let rest := rest.drop fraction.length
  let exponent := exponentRun rest
  let source := whole ++ fraction ++ exponent
  match rest.drop exponent.length with
  | 'n' :: _ => ⟨.bigint, decimalValue source, source ++ ['n']⟩
  | _ => ⟨.number, decimalValue source, source⟩

def numberLexeme : List Char → Lexeme
  | '0' :: mark :: cs =>
    match baseOfMark? mark with
    | some base =>
      let digits := digitRun base cs
      ⟨.number, String.ofList ('0' :: mark.toLower :: withoutSeparators digits),
        '0' :: mark :: digits⟩
    | none => decimalLexeme ('0' :: mark :: cs)
  | cs => decimalLexeme cs

/-- A number that starts with a point; `cs` is what follows the point. -/
def pointLexeme (cs : List Char) : Lexeme :=
  let digits := digitRun 10 cs
  let source := '.' :: digits ++ exponentRun (cs.drop digits.length)
  ⟨.number, decimalValue ('0' :: source), source⟩

/-! ### Strings and templates -/

/-- The body of a string up to its closing quote, and whether there is one before the line or
the text ends. -/
def stringBody (quote : Char) : List Char → List Char × Bool
  | [] => ([], false)
  | ['\\'] => (['\\'], false)
  | '\\' :: '\r' :: '\n' :: cs =>
    let (body, closed) := stringBody quote cs
    ('\\' :: '\r' :: '\n' :: body, closed)
  | '\\' :: c :: cs =>
    let (body, closed) := stringBody quote cs
    ('\\' :: c :: body, closed)
  | c :: cs =>
    if c = quote then ([], true)
    else if c = '\n' then ([], false)
    else
      let (body, closed) := stringBody quote cs
      (c :: body, closed)

def stringLexeme (quote : Char) (cs : List Char) : Lexeme :=
  match stringBody quote cs with
  | (body, true) => ⟨.string, String.ofList (cookString body), quote :: body ++ [quote]⟩
  | (body, false) => ⟨.error, "Unterminated string literal", quote :: body⟩

def templateLexeme (cs : List Char) : Lexeme :=
  match enclosed [.template] cs with
  | some (body, _) => ⟨.template, String.ofList body.dropLast, '`' :: body⟩
  | none => ⟨.error, "Unterminated template literal", '`' :: cs⟩

/-! ### Operators -/

/-- Whether an operator may be read in front of the given text: `?.` before a digit is a
question mark and the start of a number. -/
def admits (kind : Kind) (following : List Char) : Bool :=
  match kind, following with
  | .questionDot, c :: _ => !c.isDigit
  | _, _ => true

def operator? (cs : List Char) : Option Lexeme :=
  operators.findSome? fun (spelling, kind) =>
    let source := spelling.toList
    if source.isPrefixOf cs && admits kind (cs.drop source.length) then
      some ⟨kind, spelling, source⟩
    else none

def lexeme (c : Char) (cs : List Char) : Lexeme :=
  if c = '"' ∨ c = '\'' then stringLexeme c cs
  else if c = '`' then templateLexeme cs
  else if c.isDigit then numberLexeme (c :: cs)
  else if isWordStart c then wordLexeme (c :: cs)
  else if c = '.' ∧ cs.head?.any Char.isDigit then pointLexeme cs
  else
    (operator? (c :: cs)).getD
      ⟨.error, "Unexpected character: " ++ String.singleton c, [c]⟩

end TypeStrip.Token
