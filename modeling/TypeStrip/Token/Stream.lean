import TypeStrip.Text.Blank
import TypeStrip.Token.Basic
import TypeStrip.Token.Lexeme

/-! The tokens of a source text. -/
namespace TypeStrip.Token
open TypeStrip.Text

/-- What the text between two tokens is being read as. A block comment remembers where it
started. -/
inductive GapMode where
  | blank
  | line
  | block (start : Nat)

/-- What ends a gap between tokens: the next token or the end of the text, or a block comment
that is never closed. -/
inductive Gap where
  | reached (position : Nat) (newline : Bool) (rest : List Char)
  | openComment (start stop : Nat)

def isLineBreak (c : Char) : Bool := c == '\n' || c == '\u2028' || c == '\u2029'

/-- Passes over blanks and comments. A comment to the end of the line ends at a line feed only,
and inside a block comment only a line feed counts as a line break. -/
def gap : GapMode → Nat → Bool → List Char → Gap
  | .block start, position, _, [] => .openComment start position
  | _, position, newline, [] => .reached position newline []
  | .line, position, newline, c :: cs =>
    if c = '\n' then gap .blank (position + 1) true cs
    else gap .line (position + c.utf8Size) newline cs
  | .block _, position, newline, '*' :: '/' :: cs =>
    gap .blank (position + 2) newline cs
  | .block start, position, newline, c :: cs =>
    gap (.block start) (position + c.utf8Size) (newline || c == '\n') cs
  | .blank, position, newline, '/' :: '/' :: cs => gap .line (position + 2) newline cs
  | .blank, position, newline, '/' :: '*' :: cs =>
    gap (.block position) (position + 2) newline cs
  | .blank, position, newline, c :: cs =>
    if isBlank c then gap .blank (position + c.utf8Size) (newline || isLineBreak c) cs
    else .reached position newline (c :: cs)

/-- A gap leaves no more text than there was. -/
theorem length_le_of_gap {mode : GapMode} {start stop : Nat} {before after : Bool}
    {cs rest : List Char} (h : gap mode start before cs = .reached stop after rest) :
    rest.length ≤ cs.length := by
  fun_induction gap mode start before cs <;> simp_all <;> omega

def tokensFrom (file start : Nat) (cs : List Char) : List Token :=
  match _h : gap .blank start false cs with
  | .openComment first last =>
    [⟨.error, ⟨first, last, file⟩, "Unterminated multi-line comment", false⟩,
      ⟨.eof, ⟨last, last, file⟩, "", false⟩]
  | .reached position newline [] => [⟨.eof, ⟨position, position, file⟩, "", newline⟩]
  | .reached position newline (c :: rest) =>
    let l := lexeme c rest
    let stop := position + byteCount l.source
    ⟨l.kind, ⟨position, stop, file⟩, l.value, newline⟩ ::
      tokensFrom file stop (rest.drop (l.source.length - 1))
termination_by cs.length
decreasing_by
  have := length_le_of_gap _h
  simp only [List.length_cons] at this
  simp only [List.length_drop]
  omega

/-- The tokens of a source text that starts at the given byte of a file. The last one, and only
that, marks the end. -/
def tokenize (source : String) (file start : Nat) : List Token :=
  tokensFrom file start source.toList

end TypeStrip.Token
