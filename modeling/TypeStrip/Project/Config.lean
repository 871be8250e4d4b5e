import TypeStrip.Files.Tree
import TypeStrip.Json.Record
import TypeStrip.Lowering.Options

/-! How a project is compiled and run, as its configuration file says. -/
namespace TypeStrip

inductive ConfigFault where
  | malformed
  | unknownOption (option : UnknownOption)
  | noCallDepth
deriving DecidableEq, Repr

def ConfigFault.message : ConfigFault → String
  | .malformed => "malformed JSON"
  | .unknownOption option => option.message
  | .noCallDepth => "maxCallDepth must be at least 1"

structure Config where
  options : CompilerOptions := {}
  /-- Whether imports are checked for cycles before anything is prepared. -/
  detectCycles : Bool := false
  /-- The number of calls that may be nested in a run. -/
  maxCallDepth : Nat := 512
deriving DecidableEq, Repr

namespace Config
open Json

def field (keys : List String) (read? : Json → Option α) (set : α → σ → σ) :
    Field ConfigFault σ where
  keys := keys
  read v record :=
    match read? v with
    | some a => .ok (set a record)
    | none => .error .malformed

def optionField (key : String) (ofName : String → Except UnknownOption α) (set : α → σ → σ) :
    Field ConfigFault σ where
  keys := [key]
  read v record :=
    match v.text? with
    | some name =>
      match ofName name with
      | .ok a => .ok (set a record)
      | .error option => .error (.unknownOption option)
    | none => .error .malformed

def recordField (key : String) (fields : List (Field ConfigFault σ)) : Field ConfigFault σ where
  keys := [key]
  read := readRecord .malformed fields

def compilerFields : List (Field ConfigFault Config) := [
  optionField "target" Target.ofName fun target c =>
    { c with options := { c.options with target } },
  optionField "module" ModuleFormat.ofName fun format c =>
    { c with options := { c.options with format } }]

def flag? : Json → Option Bool
  | .boolean b => some b
  | _ => none

/-- The count that a value is: a numeral without sign, fraction and exponent, below `2 ^ 64`. -/
def count? : Json → Option Nat
  | .number numeral => (natural? numeral).filter (· < Nat.pow 2 64)
  | _ => none

def runFields : List (Field ConfigFault Config) := [
  field ["detectCycles"] flag? fun detectCycles c => { c with detectCycles },
  field ["maxCallDepth"] (orNull count?) fun depth? c =>
    { c with maxCallDepth := depth?.getD ({} : Config).maxCallDepth }]

def fields : List (Field ConfigFault Config) := [
  recordField "compilerOptions" compilerFields,
  recordField "dynscript" runFields]

/-- The configuration that a text gives. What it leaves out has its default. -/
def ofText (s : String) : Except ConfigFault Config := do
  let config ← recordOfText .malformed fields s {}
  if config.maxCallDepth = 0 then .error .noCallDepth else .ok config

def fileName : String := "tsconfig.json"

end Config

end TypeStrip
