/-! The texts after `from`: what kind of module they ask for. -/
namespace TypeStrip.Specifier

def cut (cs : List Char) : List Char × Option (List Char) :=
  match cs.span (· != '/') with
  | (name, _ :: rest) => (name, some rest)
  | (name, []) => (name, none)

/-- The name of a package, and the path inside of it. A name with a scope, which starts with `@`,
takes two segments. -/
def package (specifier : String) : String × Option String :=
  let (name, rest) := match cut specifier.toList with
    | ('@' :: scope, some rest) =>
      let (name, rest) := cut rest
      ('@' :: scope ++ '/' :: name, rest)
    | parts => parts
  (String.ofList name, rest.map String.ofList)

def hostModules : List String := [
  "fs", "path", "http", "https", "os", "process", "events", "url", "crypto", "util", "stream",
  "buffer", "child_process", "net", "tls", "dns", "querystring", "assert", "zlib"]

def startsWith (specifier start : String) : Bool := start.toList.isPrefixOf specifier.toList

def isHostModule (specifier : String) : Bool :=
  startsWith specifier "node:" || hostModules.contains specifier

def isRelative (specifier : String) : Bool :=
  specifier == "." || specifier == ".." || startsWith specifier "./" ||
    startsWith specifier "../"

end TypeStrip.Specifier
