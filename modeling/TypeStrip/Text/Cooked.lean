import TypeStrip.Text.Escape

/-! The text that the body of a string or of a template stands for. -/
namespace TypeStrip.Text

/-- Reads what follows a backslash: the character it stands for, if any, and the rest. A line
break after a backslash stands for nothing. -/
def escaped : List Char → Option Char × List Char
  | [] => (none, [])
  | c :: cs =>
    if c = 'u' then let (d, rest) := unicodeEscape cs; (some d, rest)
    else if c = 'x' then let (d, rest) := codeEscape 2 cs; (some d, rest)
    else if c = '\n' then (none, cs)
    else (some (simpleEscape c), cs)

theorem length_escaped_le (cs : List Char) : (escaped cs).2.length ≤ cs.length := by
  cases cs with
  | nil => simp [escaped]
  | cons c cs =>
    have hu := length_unicodeEscape_le cs
    have hx := length_codeEscape_le 2 cs
    simp only [escaped]
    split
    · simp only [List.length_cons]; omega
    · split
      · simp only [List.length_cons]; omega
      · split <;> simp

/-- A string's body with its escapes decoded. A carriage return after a backslash is dropped
like a line feed, together with a line feed that follows it. -/
def cookString : List Char → List Char
  | [] => []
  | '\\' :: '\r' :: '\n' :: cs => cookString cs
  | '\\' :: '\r' :: cs => cookString cs
  | '\\' :: cs => (escaped cs).1.toList ++ cookString (escaped cs).2
  | c :: cs => c :: cookString cs
termination_by cs => cs.length
decreasing_by
  all_goals simp_wf
  all_goals have := length_escaped_le cs
  all_goals omega

/-- A template's text with its escapes decoded. A carriage return, and one followed by a line
feed, is written as a line feed, but not after a backslash. -/
def cookTemplate : List Char → List Char
  | [] => []
  | '\r' :: '\n' :: cs => '\n' :: cookTemplate cs
  | '\r' :: cs => '\n' :: cookTemplate cs
  | '\\' :: cs => (escaped cs).1.toList ++ cookTemplate (escaped cs).2
  | c :: cs => c :: cookTemplate cs
termination_by cs => cs.length
decreasing_by
  all_goals simp_wf
  all_goals have := length_escaped_le cs
  all_goals omega

end TypeStrip.Text
