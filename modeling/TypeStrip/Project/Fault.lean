import TypeStrip.Lowering.Transpile
import TypeStrip.Project.Config

/-! Why a project cannot be prepared. -/
namespace TypeStrip

/-- Why modules cannot be loaded. A parse failure is named for the path of its module. -/
inductive LoadFault where
  | unreadable (path : WrittenPath) (fault : FileFault)
  | unparsable (failure : ParseFailure)
  | unresolved (specifier : String) (importer : ModulePath)
  | noFile (path : ModulePath)
  | notTranspiled (path : ModulePath)
  | cyclic (cycle : List ModulePath)
  | endless (path : ModulePath)
  | badConfig (path : WrittenPath) (fault : ConfigFault)

def LoadFault.message : LoadFault → String
  | .unreadable path fault => "failed to read " ++ path.text ++ ": " ++ fault.message
  | .unparsable failure => failure.message
  | .unresolved specifier importer =>
    "Missing dependency path for module " ++ specifier ++ " referenced from " ++ importer.text
  | .noFile path =>
    "no file found for " ++ path.text ++ " (tried .ts, .tsx, .js, .jsx and index files)"
  | .notTranspiled path => path.text ++ " was executed before it was transpiled"
  | .cyclic cycle =>
    "Circular dependency detected: " ++ String.intercalate " -> " (cycle.map ModulePath.text)
  | .endless path => "the imports of " ++ path.text ++ " have no end"
  | .badConfig path fault => "invalid configuration in " ++ path.text ++ ": " ++ fault.message

end TypeStrip
