/-! What the emitted code may use: the language level, and the form of modules. -/
namespace TypeStrip

inductive Target where
  | es3 | es5 | es2015 | es2016 | es2017 | es2018 | es2019 | es2020 | es2021 | es2022 | es2023
  | esNext
deriving DecidableEq, Ord, Repr

/-- The forms that imports and exports can take. Without a module system they still become
calls of `require`, so that the code runs. -/
inductive ModuleFormat where
  | noSystem | commonJs | esModule
deriving DecidableEq, Repr

structure CompilerOptions where
  target : Target := .es5
  format : ModuleFormat := .commonJs
deriving DecidableEq, Repr

inductive UnknownOption where
  | target (name : String)
  | format (name : String)
deriving DecidableEq, Repr

def UnknownOption.message : UnknownOption → String
  | .target name => "unknown target '" ++ name ++ "'"
  | .format name => "unknown module '" ++ name ++ "'"

def targetNames : List (String × Target) := [
  ("es3", .es3), ("es5", .es5), ("es6", .es2015), ("es2015", .es2015), ("es2016", .es2016),
  ("es2017", .es2017), ("es2018", .es2018), ("es2019", .es2019), ("es2020", .es2020),
  ("es2021", .es2021), ("es2022", .es2022), ("es2023", .es2023), ("esnext", .esNext)]

def Target.ofName (name : String) : Except UnknownOption Target :=
  match targetNames.lookup name.toLower with
  | some target => .ok target
  | none => .error (.target name)

def Target.text : Target → String
  | .es3 => "ES3" | .es5 => "ES5" | .es2015 => "ES2015" | .es2016 => "ES2016"
  | .es2017 => "ES2017" | .es2018 => "ES2018" | .es2019 => "ES2019" | .es2020 => "ES2020"
  | .es2021 => "ES2021" | .es2022 => "ES2022" | .es2023 => "ES2023" | .esNext => "ESNext"

/-- Whether the level lacks block scopes, arrows and template literals. -/
def Target.lacksArrows : Target → Bool
  | .es3 | .es5 => true
  | _ => false

def formatNames : List (String × ModuleFormat) := [
  ("none", .noSystem), ("commonjs", .commonJs), ("es6", .esModule), ("es2015", .esModule),
  ("es2020", .esModule), ("es2022", .esModule), ("esnext", .esModule)]

def ModuleFormat.ofName (name : String) : Except UnknownOption ModuleFormat :=
  match formatNames.lookup name.toLower with
  | some format => .ok format
  | none => .error (.format name)

def ModuleFormat.text : ModuleFormat → String
  | .noSystem => "None" | .commonJs => "CommonJS" | .esModule => "ESNext"

def ModuleFormat.usesRequire : ModuleFormat → Bool
  | .esModule => false
  | _ => true

def namedOr (default : α) (ofName : String → Except UnknownOption α) (name? : Option String) :
    Except UnknownOption α :=
  match name? with
  | some name => ofName name
  | none => .ok default

def CompilerOptions.override (options : CompilerOptions) (target? format? : Option String) :
    Except UnknownOption CompilerOptions := do
  let target ← namedOr options.target Target.ofName target?
  return { target, format := ← namedOr options.format ModuleFormat.ofName format? }

def CompilerOptions.ofNames (target? format? : Option String) :
    Except UnknownOption CompilerOptions :=
  CompilerOptions.override {} target? format?

end TypeStrip
