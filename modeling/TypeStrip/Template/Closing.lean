/-!
The search for the brace that closes a substitution, past the strings, braces and templates inside
it.
-/
namespace TypeStrip.Template

/-- A text in two parts, of which the first is not empty. -/
structure Cut (cs : List Char) where
  front : List Char
  rest : List Char
  append_eq : front ++ rest = cs
  front_ne_nil : front ≠ []

namespace Cut
variable {cs : List Char}

theorem length_rest_lt (a : Cut cs) : a.rest.length < cs.length := by
  have hfront := List.length_pos_iff.2 a.front_ne_nil
  have htext := congrArg List.length a.append_eq
  rw [List.length_append] at htext
  omega

def first (c : Char) (cs : List Char) : Cut (c :: cs) :=
  ⟨[c], cs, rfl, List.cons_ne_nil _ _⟩

def cons (c : Char) (a : Cut cs) : Cut (c :: cs) :=
  ⟨c :: a.front, a.rest, congrArg (List.cons c) a.append_eq, List.cons_ne_nil _ _⟩

def append (a : Cut cs) (b : Cut a.rest) : Cut cs :=
  ⟨a.front ++ b.front, b.rest, by rw [List.append_assoc, b.append_eq, a.append_eq],
    List.append_ne_nil_of_left_ne_nil a.front_ne_nil _⟩

end Cut

/-- Cuts behind the quote that closes a string. A backslash hides the next character. -/
def cutQuoted (quote : Char) : (cs : List Char) → Option (Cut cs)
  | [] => none
  | [c] => if c = quote then some (.first c []) else none
  | c :: d :: cs =>
    if c = quote then some (.first c (d :: cs))
    else if c = '\\' then (cutQuoted quote cs).map fun cut => (cut.cons d).cons c
    else (cutQuoted quote (d :: cs)).map (.cons c)

mutual

/-- Cuts behind the brace that closes a substitution, if so many braces are open inside it. -/
def cutBraces (depth : Nat) : (cs : List Char) → Option (Cut cs)
  | [] => none
  | c :: cs =>
    if c = '{' then (cutBraces (depth + 1) cs).map (.cons c)
    else if c = '}' then
      match depth with
      | 0 => some (.first c cs)
      | depth + 1 => (cutBraces depth cs).map (.cons c)
    else if c = '"' ∨ c = '\'' then
      ((cutQuoted c cs).bind fun string =>
        (cutBraces depth string.rest).map string.append).map (.cons c)
    else if c = '`' then
      ((cutTemplate cs).bind fun template =>
        (cutBraces depth template.rest).map template.append).map (.cons c)
    else (cutBraces depth cs).map (.cons c)
termination_by cs => cs.length
decreasing_by
  all_goals simp only [List.length_cons]
  any_goals have := string.length_rest_lt
  any_goals have := template.length_rest_lt
  all_goals omega

def cutTemplate : (cs : List Char) → Option (Cut cs)
  | [] => none
  | [c] => if c = '`' then some (.first c []) else none
  | c :: d :: cs =>
    if c = '`' then some (.first c (d :: cs))
    else if c = '\\' then (cutTemplate cs).map fun cut => (cut.cons d).cons c
    else if c = '$' ∧ d = '{' then
      ((cutBraces 0 cs).bind fun inside =>
        (cutTemplate inside.rest).map inside.append).map fun cut => (cut.cons d).cons c
    else (cutTemplate (d :: cs)).map (.cons c)
termination_by cs => cs.length
decreasing_by
  all_goals simp only [List.length_cons]
  any_goals have := inside.length_rest_lt
  all_goals omega

end

end TypeStrip.Template
