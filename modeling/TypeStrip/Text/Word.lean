import TypeStrip.Text.Letter
import TypeStrip.Text.Numeric

/-! The characters of words and identifiers. -/
namespace TypeStrip.Text

def isWordStart (c : Char) : Bool := isLetter c || c == '_' || c == '$'

def isWordPart (c : Char) : Bool := isLetter c || isNumeric c || c == '_' || c == '$'

/-- Whether a text has the form of a word, which is what may follow a dot. -/
def isWord (s : String) : Bool :=
  match s.toList with
  | [] => false
  | c :: cs => isWordStart c && cs.all isWordPart

end TypeStrip.Text
