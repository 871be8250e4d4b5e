import TypeStrip.Text.Word

/-! Names that are made up for required modules. -/
namespace TypeStrip.Lowering
open TypeStrip.Text

/-- The last part of a path, slashes at its end apart. -/
def lastSegment (specifier : List Char) : List Char :=
  ((specifier.reverse.dropWhile (· == '/')).takeWhile (· != '/')).reverse

/-- A file name without its extension. A dot at the front starts no extension. -/
def stem (name : List Char) : List Char :=
  match name.reverse.dropWhile (· != '.') with
  | _ :: c :: rest => (c :: rest).reverse
  | _ => name

/-- The name that temporaries for a module start with: the stem of its file, with underscores for
all that is no part of a word, and one in front of a digit. -/
def temporaryBase (specifier : String) : String :=
  let word := (stem (lastSegment specifier.toList)).map fun c => if isWordPart c then c else '_'
  match word with
  | [] => "_"
  | c :: _ => String.ofList (if c.isDigit then '_' :: word else word)

abbrev Lower := StateM (List String)

/-- A new temporary. The temporaries of one base are numbered from one. -/
def fresh (base : String) : Lower String := fun used =>
  (base ++ "_" ++ toString (used.count base + 1), base :: used)

end TypeStrip.Lowering
