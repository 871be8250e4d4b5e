import TypeStrip.Text.Span
import TypeStrip.Token.Kind
import TypeStrip.Number.Reading

/-! Tokens and what can be told from one of them. -/
namespace TypeStrip

/-- A token. Its value is the spelling of a word or operator, the decoded text of a string, the
raw body of a template, a number without separators, or the message of an error. The flag
`newlineBefore` records a line break between the token before and this one. -/
structure Token where
  kind : Token.Kind
  span : Span
  value : String
  newlineBefore : Bool
deriving DecidableEq, Inhabited, Repr

namespace Token

def numberValue? (t : Token) : Option Float := Number.parse? t.value

def endOfText (span : Span) : Token :=
  ⟨.eof, ⟨span.stop, span.stop, span.file⟩, "", false⟩

end Token

structure Diagnostic where
  code : String
  title : String
  message : String
  start : Nat
  stop : Nat
deriving DecidableEq, Repr

def Token.diagnostics (tokens : List Token) : List Diagnostic :=
  (tokens.filter (·.kind == .error)).map fun t =>
    ⟨"E0001", "Lexical error", t.value, t.span.start, t.span.stop⟩

end TypeStrip
