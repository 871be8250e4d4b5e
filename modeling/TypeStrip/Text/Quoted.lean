/-! Text as it is written in code: string literals, and the fixed parts of templates. -/
namespace TypeStrip.Text

def fourHexDigits (code : Nat) : List Char :=
  let digits := Nat.toDigits 16 code
  List.replicate (4 - digits.length) '0' ++ digits

def quotedChar : Char → List Char
  | '"' => ['\\', '"']
  | '\\' => ['\\', '\\']
  | '\n' => ['\\', 'n']
  | '\r' => ['\\', 'r']
  | '\t' => ['\\', 't']
  | '\x08' => ['\\', 'b']
  | '\x0c' => ['\\', 'f']
  | '\x0b' => ['\\', 'v']
  | c =>
    if c.toNat < 0x20 || c == '\u2028' || c == '\u2029' then '\\' :: 'u' :: fourHexDigits c.toNat
    else [c]

def quoted (s : String) : String :=
  String.ofList ('"' :: (s.toList.flatMap quotedChar ++ ['"']))

/-- How text is written between the backquotes of a template. A dollar sign is escaped only where
it would open a substitution. -/
def templateChars : List Char → List Char
  | [] => []
  | '\x60' :: cs => '\\' :: '\x60' :: templateChars cs
  | '\\' :: cs => '\\' :: '\\' :: templateChars cs
  | '\r' :: cs => '\\' :: 'r' :: templateChars cs
  | '$' :: '{' :: cs => '\\' :: '$' :: '{' :: templateChars cs
  | c :: cs => c :: templateChars cs

def templateText (s : String) : String := String.ofList (templateChars s.toList)

end TypeStrip.Text
