import TypeStrip.Path.Written

/-!
Paths that identify modules. A path is simplified by its text alone: two modules are the same one
exactly when their paths are equal.
-/
namespace TypeStrip

/-- An absolute path without empty parts, `.` and `..`: the names on the way from the root. -/
structure ModulePath where
  segments : List String
deriving DecidableEq, Repr

namespace ModulePath

def step (segments : List String) (part : String) : List String :=
  if WrittenPath.staysInPlace part then segments
  else if part = ".." then segments.dropLast
  else segments ++ [part]

def ofParts (parts : List String) : ModulePath := ⟨parts.foldl step []⟩

def ofWritten (p : WrittenPath) : ModulePath := ofParts p.parts

def ofText (s : String) : ModulePath := ofWritten (.ofText s)

def written (p : ModulePath) : WrittenPath := ⟨p.segments⟩

def text (p : ModulePath) : String := p.written.text

def join (p : ModulePath) (s : String) : ModulePath := ofWritten (p.written.join s)

def basename (p : ModulePath) : String := p.segments.getLast?.getD ""

def dir (p : ModulePath) : ModulePath := ⟨p.segments.dropLast⟩

/-- What follows the last dot of a name. A dot at its front does not count. -/
def extensionOf? (name : List Char) : Option (List Char) :=
  match name.reverse.dropWhile (· != '.') with
  | _ :: _ :: _ => some (name.reverse.takeWhile (· != '.')).reverse
  | _ => none

def extension? (p : ModulePath) : Option String :=
  (extensionOf? p.basename.toList).map String.ofList

def recognizedExtensions : List String := ["ts", "js"]

def isRecognized (p : ModulePath) : Bool :=
  match p.extension? with
  | some extension => recognizedExtensions.contains extension
  | none => false

def sibling (p : ModulePath) (s : String) : ModulePath := p.dir.join s

def probedExtensions : List String := ["ts", "tsx", "js", "jsx"]

def append (p : ModulePath) (s : String) : ModulePath :=
  ⟨p.segments.dropLast ++ [p.basename ++ s]⟩

/-- The files that a path without an extension may stand for, in the order in which they are
tried: the path with an extension, then an index file in the directory of that path. -/
def candidates (p : ModulePath) : List ModulePath :=
  probedExtensions.map (fun extension => p.append ("." ++ extension)) ++
    probedExtensions.map fun extension => ⟨p.segments ++ ["index." ++ extension]⟩

end ModulePath

end TypeStrip
