import TypeStrip.Command.Arguments

/-! What is printed for those who ask for help. -/
namespace TypeStrip.Command

def programName : String := "dynscript"

def versionText : String := programName ++ " 0.1.0\n"

def blanks (n : Nat) : String := String.ofList (List.replicate n ' ')

def column (width : Nat) (s : String) : String := s ++ blanks (width - s.length)

def linesOf (ss : List String) : String := String.join (ss.map (· ++ "\n"))

def Switch.label (s : Switch) : String :=
  "--" ++ s.long ++ (match s.value with
    | some (name, _) => " <" ++ name ++ ">"
    | none => "") ++ if s.repeats then "..." else ""

def Switch.fullLabel (s : Switch) : String :=
  (match s.short with
    | some c => String.ofList ['-', c, ',', ' ']
    | none => blanks 4) ++ s.label

def labelWidth (switches : List Switch) : Nat :=
  (switches.map fun s => s.label.length).foldl max 0

def pageWidth : Nat := 100

/-- Whether the help of one of several options does not fit beside its label, which takes up more
than two fifths of the page. -/
def needsLines (switches : List Switch) : Bool :=
  let taken := labelWidth switches + 12
  switches.any fun s => 2 * pageWidth < 5 * taken && pageWidth < taken + s.help.length

def switchLines (switches : List Switch) : List String :=
  if needsLines switches then
    switches.flatMap fun s => ["  " ++ s.fullLabel, blanks 10 ++ s.help]
  else
    switches.map fun s => "  " ++ column (labelWidth switches + 6) s.fullLabel ++ s.help

def switchParagraphs : List Switch → List String
  | [] => []
  | [s] => ["  " ++ s.fullLabel, blanks 10 ++ s.help]
  | s :: switches =>
    ("  " ++ s.fullLabel) :: (blanks 10 ++ s.help) :: "" :: switchParagraphs switches

def helpSwitch (help : String) : Switch where
  long := "help"
  short := some 'h'
  help := help

def versionSwitch : Switch where
  long := "version"
  short := some 'V'
  help := "Print version"

/-- The options of a command in the order in which they are listed: the one that all commands have
comes second. -/
def Signature.listed (s : Signature) : List Switch :=
  s.switches.take 1 ++ verbose :: s.switches.drop 1 ++ [helpSwitch "Print help"]

def Signature.help (s : Signature) : String :=
  linesOf ([s.about, "",
    "Usage: " ++ programName ++ " " ++ s.name ++ " [OPTIONS] <" ++ s.operand ++ ">", "",
    "Arguments:", "  <" ++ s.operand ++ ">  ", "",
    "Options:"] ++ switchLines s.listed)

def commandLines : List String :=
  let rows := signatures.map (fun s => (s.name, s.about)) ++
    [("help", "Print this message or the help of the given subcommand(s)")]
  let width := (rows.map fun (name, _) => name.length).foldl max 0
  rows.map fun (name, about) => "  " ++ column (width + 2) name ++ about

def programHelpText (full : Bool) : String :=
  let about := if full then
      ["Resolves an entry module's static imports, transpiles the whole graph",
        "to CommonJS and executes it in isolated sandbox realms."]
    else ["Load TypeScript/JavaScript modules and run them in a sandbox"]
  let options := if full then
      switchParagraphs [verbose, helpSwitch "Print help (see a summary with '-h')", versionSwitch]
    else switchLines [verbose, helpSwitch "Print help (see more with '--help')", versionSwitch]
  linesOf (about ++ ["", "Usage: " ++ programName ++ " [OPTIONS] <COMMAND>", "", "Commands:"] ++
    commandLines ++ ["", "Options:"] ++ options)

end TypeStrip.Command
