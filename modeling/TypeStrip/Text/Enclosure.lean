/-! Text that nests: template bodies, their substitutions, and the strings inside those. -/
namespace TypeStrip.Text

inductive Enclosure where
  | template
  | braces
  | quoted (quote : Char)
deriving DecidableEq, Repr

def Enclosure.after (inner : Enclosure) (outer : List Enclosure) (c : Char) : List Enclosure :=
  match inner with
  | .template => if c = '`' then outer else inner :: outer
  | .quoted quote => if c = quote then outer else inner :: outer
  | .braces =>
    if c = '{' then .braces :: inner :: outer
    else if c = '}' then outer
    else if c = '"' ∨ c = '\'' then .quoted c :: inner :: outer
    else if c = '`' then .template :: inner :: outer
    else inner :: outer

/-- Splits off the text that closes all open enclosures, its last closing character included.
A backslash hides the next character except directly between braces, and `${` inside a
template opens braces. Nothing if the text ends first. -/
def enclosed : List Enclosure → List Char → Option (List Char × List Char)
  | [], cs => some ([], cs)
  | _ :: _, [] => none
  | inner :: outer, [c] => (enclosed (inner.after outer c) []).map fun (t, rest) => (c :: t, rest)
  | inner :: outer, c :: d :: cs =>
    if c = '\\' ∧ inner ≠ .braces then
      (enclosed (inner :: outer) cs).map fun (t, rest) => (c :: d :: t, rest)
    else if c = '$' ∧ d = '{' ∧ inner = .template then
      (enclosed (.braces :: inner :: outer) cs).map fun (t, rest) => (c :: d :: t, rest)
    else
      (enclosed (inner.after outer c) (d :: cs)).map fun (t, rest) => (c :: t, rest)

/-- The text and the rest are the input again. -/
theorem append_of_enclosed {open_ : List Enclosure} {cs t rest : List Char}
    (h : enclosed open_ cs = some (t, rest)) : t ++ rest = cs := by
  fun_induction enclosed open_ cs generalizing t rest with
  | case1 => simp_all
  | case2 => simp at h
  | case3 inner outer c ih =>
    obtain ⟨⟨t', r'⟩, he, ht⟩ := Option.map_eq_some_iff.1 h
    simp only [Prod.mk.injEq] at ht
    rw [← ht.1, ← ht.2, List.cons_append, ih he]
  | case4 _ _ _ _ _ _ ih | case5 _ _ _ _ _ _ _ ih | case6 _ _ _ _ _ _ _ ih =>
    obtain ⟨⟨t', r'⟩, he, ht⟩ := Option.map_eq_some_iff.1 h
    simp only [Prod.mk.injEq] at ht
    rw [← ht.1, ← ht.2]
    simp [ih he]

end TypeStrip.Text
