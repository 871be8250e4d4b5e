import TypeStrip.Number.Reading

/-! Escapes that a backslash begins in strings and templates. -/
namespace TypeStrip.Text

/-- The character with a code point, or the replacement character where there is none. -/
def charOfCode (code : Nat) : Char :=
  if h : code.isValidChar then Char.ofNatAux code h else '\uFFFD'

def hexCode (digits : List Char) : Nat :=
  digits.foldl (fun n c => n * 16 + (Number.digitIn? 16 c).getD 0) 0

def isHexDigit (c : Char) : Bool := (Number.digitIn? 16 c).isSome

def codeEscape (count : Nat) (cs : List Char) : Char × List Char :=
  let digits := (cs.take count).takeWhile isHexDigit
  (charOfCode (hexCode digits), cs.drop digits.length)

def skipBrace : List Char → List Char
  | '}' :: rest => rest
  | cs => cs

/-- Reads what follows a backslash and `u`: up to four digits, or any number of them between
braces. The closing brace may be missing. -/
def unicodeEscape : List Char → Char × List Char
  | '{' :: cs =>
    (charOfCode (hexCode (cs.takeWhile isHexDigit)), skipBrace (cs.dropWhile isHexDigit))
  | cs => codeEscape 4 cs

def simpleEscape : Char → Char
  | 'n' => '\n'
  | 'r' => '\r'
  | 't' => '\t'
  | 'b' => '\x08'
  | 'f' => '\x0c'
  | 'v' => '\x0b'
  | '0' => '\x00'
  | c => c

/-- A decoder never leaves more than it is given. -/
theorem length_codeEscape_le (count : Nat) (cs : List Char) :
    (codeEscape count cs).2.length ≤ cs.length := by
  simp [codeEscape]

theorem length_skipBrace_le (cs : List Char) : (skipBrace cs).length ≤ cs.length := by
  unfold skipBrace
  split <;> simp

theorem length_unicodeEscape_le (cs : List Char) :
    (unicodeEscape cs).2.length ≤ cs.length := by
  unfold unicodeEscape
  split
  · rename_i cs
    have := length_skipBrace_le (cs.dropWhile isHexDigit)
    have := (List.dropWhile_sublist (l := cs) isHexDigit).length_le
    simp only [List.length_cons]
    omega
  · exact length_codeEscape_le 4 cs

end TypeStrip.Text
