import TypeStrip.Command.Help
import TypeStrip.Project.Basic
import TypeStrip.Project.Order
import TypeStrip.Text.Listed
import TypeStrip.Token.Stream

/-! What commands print, and how they end. -/
namespace TypeStrip

structure Outcome where
  exit : Nat
  output : String
  complaint : String
deriving DecidableEq, Repr

namespace Command

def success (output : String) : Outcome := ⟨0, output, ""⟩

def failure (output complaint : String) : Outcome := ⟨1, output, complaint ++ "\n"⟩

def outcome : Except LoadFault String → Outcome
  | .ok output => success output
  | .error fault => failure "" ("error: " ++ fault.message)

def source (files : FileTree) (cwd : ModulePath) (file : String) : Except LoadFault String :=
  let path := cwd.written.join file
  match files.read path with
  | .ok content => .ok content
  | .error fault => .error (.unreadable path fault)

/-- The project of an entry, and the path of the entry itself. Unless a root is given, the project
is in the directory of the entry. -/
def projectOf (files : FileTree) (cwd : ModulePath) (entry : String) (root? : Option String) :
    Except LoadFault (Project × ModulePath) := do
  let entry := cwd.join entry
  let root := match root? with
    | some root => cwd.join root
    | none => entry.dir
  return (← Project.load files root, entry)

def prepareEntry (files : FileTree) (cwd : ModulePath) (entry : String) (root? : Option String)
    (detectCycles : Bool) (maxCallDepth? : Option Nat) : Except LoadFault ModuleTree := do
  let (project, entry) ← projectOf files cwd entry root?
  let config := { project.config with
    detectCycles := project.config.detectCycles || detectCycles
    maxCallDepth := match maxCallDepth? with
      | some depth => max depth 1
      | none => project.config.maxCallDepth }
  Project.prepare files { project with config } entry.text

def transpileFile (files : FileTree) (cwd : ModulePath) (file : String) (target? : Option Target)
    (format? : Option ModuleFormat) : Except LoadFault String := do
  let content ← source files cwd file
  let path := cwd.join file
  let { options, .. } ← Config.load files path.dir.written
  let options : CompilerOptions :=
    ⟨target?.getD options.target, format?.getD options.format⟩
  match TypeStrip.transpile content path.basename options with
  | .ok code => .ok code
  | .error f => .error (.unparsable f)

def depsOfFile (files : FileTree) (cwd : ModulePath) (file : String) : Except LoadFault String := do
  let specifiers ← scanImports (cwd.join file) (← source files cwd file)
  return linesOf specifiers

def graphOfEntry (files : FileTree) (cwd : ModulePath) (entry : String) (root? : Option String) :
    Except LoadFault String := do
  let (project, entry) ← projectOf files cwd entry root?
  let g ← project.graph files entry.text
  match g.loadOrder with
  | .error cycle => .error (.cyclic cycle)
  | .ok paths =>
    return String.join <| paths.map fun path =>
      let imports := match g.find? path with
        | some node => node.specifiers.zip node.dependencies
        | none => []
      linesOf (path.text :: imports.map fun (specifier, dependency) =>
        "  " ++ specifier ++ " -> " ++ dependency.text)

/-! ### Listings of tokens -/

def indexText (n : Nat) : String :=
  let digits := toString n
  blanks (4 - digits.length) ++ digits

def tokenLine (positions : Bool) (i : Nat) (t : Token) : String :=
  let line := indexText i ++ " | " ++ t.kind.name ++ " | " ++ Text.listed t.value
  if positions then line ++ " | " ++ toString t.span.start ++ ".." ++ toString t.span.stop
  else line

def tokenLines (positions : Bool) : Nat → List Token → List String
  | _, [] => []
  | i, t :: ts =>
    if t.kind == .eof then ["", indexText i ++ " | " ++ t.kind.name]
    else tokenLine positions i t :: tokenLines positions (i + 1) ts

def ruler : String := String.ofList (List.replicate 80 '=')

def tokenListing (file content : String) (positions : Bool) : Outcome :=
  let ts := Token.tokenize content 0 0
  let errors := Token.diagnostics ts
  let listing := linesOf (["Tokens for " ++ file ++ ":", "", ruler] ++
    tokenLines positions 0 ts ++ [ruler, "", "Total tokens: " ++ toString ts.length])
  if errors.isEmpty then success listing
  else
    failure (listing ++ linesOf ["", "Lexer errors found: " ++ toString errors.length])
      (String.intercalate "\n" (errors.map Diagnostic.message))

def checkFile (content : String) : Outcome :=
  let errors := Token.diagnostics (Token.tokenize content 0 0)
  if !errors.isEmpty then failure "" (String.intercalate "\n" (errors.map Diagnostic.message))
  else match Grammar.parseModule content 0 with
    | .ok _ => success ""
    | .error errors =>
      failure "" (String.intercalate "\n" (errors.map Grammar.ParseError.text))

/-! ### Commands -/

/-- What a command does in a directory. A module is executed by an engine, which is no part of
this program: it is prepared, and that is all. -/
def execute (files : FileTree) (cwd : ModulePath) : Command → Outcome
  | .run entry root? detectCycles maxCallDepth? =>
    match prepareEntry files cwd entry root? detectCycles maxCallDepth? with
    | .ok m => failure "" ("error: there is no engine to execute " ++ m.path.text)
    | .error fault => failure "" ("error: " ++ fault.message)
  | .transpile file target? format? => outcome (transpileFile files cwd file target? format?)
  | .deps file => outcome (depsOfFile files cwd file)
  | .graph entry root? => outcome (graphOfEntry files cwd entry root?)
  | .lex file positions =>
    match source files cwd file with
    | .ok content => tokenListing file content positions
    | .error fault => failure "" ("error: " ++ fault.message)
  | .parse file =>
    match source files cwd file with
    | .ok content => checkFile content
    | .error fault => failure "" ("error: " ++ fault.message)

/-- What is done about a request. Without a valid command there is nothing to print. -/
def Request.outcome (files : FileTree) (cwd : ModulePath) : Request → Outcome
  | .command c => c.execute files cwd
  | .programHelp full => success (programHelpText full)
  | .commandHelp s => success s.help
  | .version => success versionText
  | .invalid => ⟨2, "", "error: invalid arguments, see --help\n"⟩

end Command

end TypeStrip
