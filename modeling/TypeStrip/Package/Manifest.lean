import TypeStrip.Files.Tree
import TypeStrip.Json.Record

/-! What a package says about itself in its manifest. -/
namespace TypeStrip

structure Manifest where
  name : String := ""
  version : String := ""
  main : Option String := none
  types : Option String := none
  module : Option String := none
  exports : Option Json := none
  dependencies : List (String × String) := []
  devDependencies : List (String × String) := []

namespace Manifest
open Json

/-- A table with one more entry, at its place in the order of keys. An entry with the same key is
replaced. -/
def insertSorted (key value : String) : List (String × String) → List (String × String)
  | [] => [(key, value)]
  | (k, v) :: table =>
    if key < k then (key, value) :: (k, v) :: table
    else if key = k then (key, value) :: table
    else (k, v) :: insertSorted key value table

def tableOf? : List (Option String × Json) → List (String × String) →
    Option (List (String × String))
  | [], table => some table
  | (some key, .string (some value)) :: members, table =>
    tableOf? members (insertSorted key value table)
  | _ :: _, _ => none

def table? : Json → Option (List (String × String))
  | .object members true => tableOf? members []
  | _ => none

def maxDepth : Nat := 126

def kept? (v : Json) : Option Json :=
  if v.isWhole && v.isSound && v.depth ≤ maxDepth then some v else none

def field (keys : List String) (read? : Json → Option α) (set : α → Manifest → Manifest) :
    Field Unit Manifest where
  keys := keys
  read v m :=
    match read? v with
    | some a => .ok (set a m)
    | none => .error ()

def fields : List (Field Unit Manifest) := [
  field ["name"] text? fun name m => { m with name },
  field ["version"] text? fun version m => { m with version },
  field ["main"] (orNull text?) fun main m => { m with main },
  field ["types", "typings"] (orNull text?) fun types m => { m with types },
  field ["module"] (orNull text?) fun module m => { m with module },
  field ["exports"] (orNull kept?) fun exports m => { m with exports },
  field ["dependencies"] table? fun dependencies m => { m with dependencies },
  field ["devDependencies"] table? fun devDependencies m => { m with devDependencies }]

def ofText? (s : String) : Option Manifest := (recordOfText () fields s {}).toOption

/-- The conditions whose entry is taken, most wanted first. -/
def conditions : List String := ["require", "default", "import", "node"]

def valueOf? (members : List (Option String × Json)) (key : String) : Option Json :=
  members.reverse.lookup (some key)

/-- The file that an entry names: itself, or that of the package as a whole, or that of the first
condition that has one. A value of depth `n` needs fuel above `n`. -/
def pick? : Nat → Json → Option String
  | _, .string s => s
  | fuel + 1, .object members _ =>
    match valueOf? members "." with
    | some root => pick? fuel root
    | none => conditions.findSome? fun c => (valueOf? members c).bind (pick? fuel)
  | _, _ => none

def exported? (m : Manifest) : Option String := m.exports.bind fun v => pick? (v.depth + 1) v

def entries (m : Manifest) : List String :=
  [m.main, m.module, m.exported?, m.types].filterMap id

def declared (m : Manifest) : List String :=
  m.dependencies.map Prod.fst ++ m.devDependencies.map Prod.fst

def fileName : String := "package.json"

def read? (files : FileTree) (package : WrittenPath) : Option Manifest :=
  (files.read (package.join fileName)).toOption.bind ofText?

end Manifest

end TypeStrip
