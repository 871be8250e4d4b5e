import TypeStrip.Code.Text
import TypeStrip.Grammar.Program
import TypeStrip.Lowering.Module

/-! From the source of a module to code that runs without types. -/
namespace TypeStrip

def Program.emit (p : Program) (options : CompilerOptions) : String :=
  Code.text (Lowering.lowerProgram options p)

structure ParseFailure where
  name : String
  errors : List Grammar.ParseError

/-- The wording of a failure: the first complaint, and the number of the others. -/
def ParseFailure.message (f : ParseFailure) : String :=
  "failed to parse " ++ f.name ++ ": " ++
    match f.errors with
    | [] => "no diagnostics"
    | [e] => e.text
    | e :: es => e.text ++ " (and " ++ toString es.length ++ " more)"

def parseNamed (source name : String) : Except ParseFailure Program :=
  match Grammar.parseModule source 0 with
  | .ok p => .ok p
  | .error errors => .error ⟨name, errors⟩

/-- The code of a source text. Its name occurs in failures only. -/
def transpile (source name : String) (options : CompilerOptions) : Except ParseFailure String :=
  (parseNamed source name).map fun p => p.emit options

def anonymousModule : String := "module.ts"

end TypeStrip
