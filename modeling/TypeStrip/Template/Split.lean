import TypeStrip.Text.Span
import TypeStrip.Text.Cooked
import TypeStrip.Template.Closing

/-! Splitting a raw template body into its text and the source of its substitutions. -/
namespace TypeStrip.Template
open TypeStrip.Text

/-- The source between `${` and its closing brace, and the byte offset in the body at which it
starts. -/
structure Substitution where
  source : String
  offset : Nat
deriving DecidableEq, Repr

/-- A template body: the text up to the first substitution, then every substitution with the
text after it. -/
structure Parts where
  head : String
  tail : List (Substitution × String)
deriving DecidableEq, Repr

def Parts.texts (p : Parts) : List String := p.head :: p.tail.map (·.2)

def Parts.substitutions (p : Parts) : List Substitution := p.tail.map (·.1)

inductive SplitError where
  | trailingBackslash
  | openSubstitution
deriving DecidableEq, Repr

def SplitError.message : SplitError → String
  | .trailingBackslash => "Trailing backslash in template literal"
  | .openSubstitution => "Unterminated template substitution"

def segments (offset : Nat) :
    List Char → Except SplitError (List Char × List (Substitution × List Char))
  | [] => .ok ([], [])
  | ['\\'] => .error .trailingBackslash
  | '\\' :: c :: cs => do
    let (head, tail) ← segments (offset + 1 + c.utf8Size) cs
    .ok ('\\' :: c :: head, tail)
  | '$' :: '{' :: cs =>
    match cutBraces 0 cs with
    | none => .error .openSubstitution
    | some cut => do
      let (text, tail) ← segments (offset + 2 + byteCount cut.front) cut.rest
      .ok ([], (⟨String.ofList cut.front.dropLast, offset + 2⟩, text) :: tail)
  | c :: cs => do
    let (head, tail) ← segments (offset + c.utf8Size) cs
    .ok (c :: head, tail)
termination_by cs => cs.length
decreasing_by
  · simp only [List.length_cons]
    omega
  · have := cut.length_rest_lt
    simp only [List.length_cons]
    omega
  · simp only [List.length_cons]
    omega

def split (raw : String) : Except SplitError Parts := do
  let (head, tail) ← segments 0 raw.toList
  .ok ⟨String.ofList (cookTemplate head),
    tail.map fun (substitution, text) => (substitution, String.ofList (cookTemplate text))⟩

end TypeStrip.Template
