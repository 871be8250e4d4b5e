import TypeStrip.Lowering.Options
import TypeStrip.Number.Reading

/-!
Command lines. Arguments are read from left to right, and the first one that is wrong, or that asks
for help, decides.
-/
namespace TypeStrip

/-- What can be asked for. Paths are as they were given. -/
inductive Command where
  | run (entry : String) (root : Option String) (detectCycles : Bool) (maxCallDepth : Option Nat)
  | transpile (file : String) (target : Option Target) (format : Option ModuleFormat)
  | deps (file : String)
  | graph (entry : String) (root : Option String)
  | lex (file : String) (positions : Bool)
  | parse (file : String)

namespace Command

structure Switch where
  long : String
  short : Option Char := none
  value : Option (String × (String → Bool)) := none
  repeats : Bool := false
  help : String

structure Given where
  values : List (String × String) := []
  operands : List String := []

structure Signature where
  name : String
  about : String
  operand : String
  switches : List Switch := []
  command : String → Given → Command

/-! ### The commands -/

def isPath (s : String) : Bool := s != ""

/-- The count that a text is: digits, perhaps after a plus sign, of a number below `2 ^ 64`. -/
def count? (s : String) : Option Nat := Number.word? 10 s.toList

def isOk : Except ε α → Bool
  | .ok _ => true
  | .error _ => false

def verbose : Switch where
  long := "verbose"
  short := some 'v'
  repeats := true
  help := "Raise the log level (-v info, -vv debug, -vvv trace). RUST_LOG wins"

def root (help : String) : Switch where
  long := "root"
  value := some ("ROOT", isPath)
  help := help

def signatures : List Signature := [
  { name := "run"
    about := "Prepare and execute an entry module, printing its exports as JSON"
    operand := "ENTRY"
    switches := [
      root "Project root holding tsconfig.json (defaults to the entry's directory)",
      { long := "detect-cycles", help := "Fail on circular imports before preparing the graph" },
      { long := "max-call-depth"
        value := some ("MAX_CALL_DEPTH", fun s => (count? s).isSome)
        help := "Nested script calls allowed before execution is aborted" }]
    command := fun entry given =>
      .run entry (given.values.lookup "root") (given.values.lookup "detect-cycles").isSome
        ((given.values.lookup "max-call-depth").bind count?) },
  { name := "transpile"
    about := "Transpile one file and print the JavaScript"
    operand := "FILE"
    switches := [
      { long := "target"
        value := some ("TARGET", fun s => isOk (Target.ofName s))
        help := "ES3, ES5, ES2015 ... ESNext" },
      { long := "module"
        value := some ("MODULE", fun s => isOk (ModuleFormat.ofName s))
        help := "CommonJS, ESNext or None" }]
    command := fun file given =>
      .transpile file ((given.values.lookup "target").bind fun s => (Target.ofName s).toOption)
        ((given.values.lookup "module").bind fun s => (ModuleFormat.ofName s).toOption) },
  { name := "deps"
    about := "Print the import specifiers of one file"
    operand := "FILE"
    command := fun file _ => .deps file },
  { name := "graph"
    about := "Print every module reachable from an entry, dependencies first"
    operand := "ENTRY"
    switches := [root ""]
    command := fun entry given => .graph entry (given.values.lookup "root") },
  { name := "lex"
    about := "Lex a file and show tokens (debug)"
    operand := "INPUT"
    switches := [{ long := "positions", short := some 'p', help := "Show token positions" }]
    command := fun file given => .lex file (given.values.lookup "positions").isSome },
  { name := "parse"
    about := "Parse a file and show the AST (debug)"
    operand := "INPUT"
    command := fun file _ => .parse file }]

def signature? (name : String) : Option Signature := signatures.find? fun s => s.name == name

/-! ### Reading -/

/-- Why reading stops: an argument is wrong, or it asks for help, in full or in short, or for the
version. -/
inductive Stop where
  | invalid
  | help (full : Bool)
  | version

/-- What the switches and operands of an argument belong to: the program, whose first operand is
the name of a command, or a command, which has one operand. -/
inductive Reader where
  | program
  | command (s : Signature)

namespace Reader

def switches : Reader → List Switch
  | .program => [verbose]
  | .command s => verbose :: s.switches

/-- One more option. It may occur once unless it repeats. -/
def put (given : Given) (s : Switch) (text : String) : Except Stop Given :=
  let isValid := match s.value with
    | some (_, accepts) => accepts text
    | none => true
  if !isValid || (!s.repeats && (given.values.lookup s.long).isSome) then .error .invalid
  else .ok { given with values := (s.long, text) :: given.values }

def putOperand (given : Given) (text : String) : Except Stop Given :=
  if isPath text && given.operands.isEmpty then .ok { given with operands := [text] }
  else .error .invalid

def readLetters (r : Reader) : Given → List Char → Except Stop Given
  | given, [] => .ok given
  | given, c :: cs =>
    match r.switches.find? fun s => s.short == some c with
    | some s => do r.readLetters (← put given s "") cs
    | none =>
      match r, c with
      | _, 'h' => .error (.help false)
      | .program, 'V' => .error .version
      | _, _ => .error .invalid

def isSwitch (arg : String) : Bool :=
  match arg.toList with
  | '-' :: _ :: _ => true
  | _ => false

def longParts (cs : List Char) : String × Option String :=
  match cs.span (· != '=') with
  | (name, _ :: value) => (String.ofList name, some (String.ofList value))
  | (name, []) => (String.ofList name, none)

def request? : Reader → String → Option Stop
  | _, "help" => some (.help true)
  | .program, "version" => some .version
  | _, _ => none

/-- Reads arguments. For the program, the first operand and all that follows it is left to its
command. -/
def read (r : Reader) (given : Given) : List String → Except Stop Given
  | [] => .ok given
  | arg :: args =>
    match arg.toList with
    | ['-', '-'] =>
      match r with
      | .program => if args.isEmpty then .ok given else .error .invalid
      | .command _ => args.foldlM putOperand given
    | '-' :: '-' :: cs =>
      let (name, value?) := longParts cs
      match r.switches.find? fun s => s.long == name with
      | none => .error (if value?.isSome then .invalid else (r.request? name).getD .invalid)
      | some s =>
        match s.value, value? with
        | none, none => do r.read (← put given s "") args
        | none, some _ => .error .invalid
        | some _, some value => do r.read (← put given s value) args
        | some _, none =>
          match args with
          | [] => .error .invalid
          | value :: args =>
            if isSwitch value then .error .invalid else do r.read (← put given s value) args
    | '-' :: c :: cs => do r.read (← r.readLetters given (c :: cs)) args
    | _ =>
      match r with
      | .program => .ok { given with operands := arg :: args }
      | .command _ => do r.read (← putOperand given arg) args

end Reader

inductive Request where
  | command (c : Command)
  | programHelp (full : Bool)
  | commandHelp (s : Signature)
  | version
  | invalid

def Signature.request (s : Signature) (args : List String) : Request :=
  match Reader.read (.command s) {} args with
  | .ok given =>
    match given.operands with
    | operand :: _ => .command (s.command operand given)
    | [] => .invalid
  | .error (.help _) => .commandHelp s
  | .error _ => .invalid

def Request.ofArguments (args : List String) : Request :=
  match Reader.read .program {} args with
  | .ok given =>
    match given.operands with
    | [] => .invalid
    | ["help"] => .programHelp true
    | ["help", name] =>
      match signature? name with
      | some s => .commandHelp s
      | none => .invalid
    | name :: args =>
      match signature? name with
      | some s => s.request args
      | none => .invalid
  | .error (.help full) => .programHelp full
  | .error .version => .version
  | .error .invalid => .invalid

end Command

end TypeStrip
