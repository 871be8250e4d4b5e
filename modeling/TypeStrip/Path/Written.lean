/-! Absolute paths as they are written: not simplified in any way. -/
namespace TypeStrip

def Text.slashParts : List Char → List (List Char)
  | [] => [[]]
  | c :: cs =>
    if c = '/' then [] :: slashParts cs
    else match slashParts cs with
      | part :: parts => (c :: part) :: parts
      | [] => [[c]]

/-- An absolute path: the texts after each of its slashes. -/
structure WrittenPath where
  parts : List String
deriving DecidableEq, Repr

namespace WrittenPath

def isAbsolute (s : String) : Bool := s.toList.head? == some '/'

def partsOf (s : String) : List String := (Text.slashParts s.toList).map String.ofList

/-- The path of a text, which starts with a slash if it is absolute. Other texts are taken from
the root. -/
def ofText (s : String) : WrittenPath :=
  ⟨if isAbsolute s then (partsOf s).tail else partsOf s⟩

def text (p : WrittenPath) : String := "/" ++ String.intercalate "/" p.parts

/-- The path that a text names when it is read in a directory. An absolute text names the same
path everywhere. -/
def join (p : WrittenPath) (s : String) : WrittenPath :=
  if isAbsolute s then ofText s
  else
    let parts := if p.parts.getLast? = some "" then p.parts.dropLast else p.parts
    ⟨parts ++ partsOf s⟩

def staysInPlace (part : String) : Bool := part == "" || part == "."

def steps (p : WrittenPath) : List String := p.parts.filter fun part => !staysInPlace part

def trimmed (parts : List String) : List String :=
  (parts.reverse.dropWhile staysInPlace).reverse

def parent? (p : WrittenPath) : Option WrittenPath :=
  if (trimmed p.parts).isEmpty then none else some ⟨trimmed (trimmed p.parts).dropLast⟩

theorem length_trimmed_le (parts : List String) : (trimmed parts).length ≤ parts.length := by
  simpa [trimmed] using (List.dropWhile_suffix staysInPlace (l := parts.reverse)).length_le

theorem length_lt_of_parent? {p q : WrittenPath} (h : p.parent? = some q) :
    q.parts.length < p.parts.length := by
  unfold parent? at h
  split at h
  · cases h
  · next hne =>
    cases h
    have hle := length_trimmed_le p.parts
    have hdrop := length_trimmed_le (trimmed p.parts).dropLast
    have hpos := List.length_pos_iff.2 (by simpa using hne : trimmed p.parts ≠ [])
    simp only [List.length_dropLast] at hdrop
    change (trimmed (trimmed p.parts).dropLast).length < p.parts.length
    omega

def ancestors (p : WrittenPath) : List WrittenPath :=
  p :: match _h : p.parent? with
    | some q => q.ancestors
    | none => []
termination_by p.parts.length
decreasing_by exact length_lt_of_parent? _h

end WrittenPath

end TypeStrip
