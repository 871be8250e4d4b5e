import TypeStrip.Package.Manifest
import TypeStrip.Package.Specifier

/-!
Packages are looked up in the `node_modules` directories from that of the importing file up to the
root of the project. The nearest one counts, also if it has no file to enter by.
-/
namespace TypeStrip.Package

def projectRoot? (files : FileTree) (start : WrittenPath) : Option WrittenPath :=
  start.ancestors.find? fun dir => files.isFile (dir.join Manifest.fileName)

/-- The file that a path names, with an extension or the name of an index file added if it has to
be. -/
def file? (files : FileTree) (target : WrittenPath) : Option WrittenPath :=
  if files.isFile target then some target
  else ((ModulePath.ofWritten target).candidates.find? fun c => files.isFile c.written).map
    ModulePath.written

/-- The file that a package is entered by: a given one, the first that its manifest names and that
exists, or an index file. -/
def entry? (files : FileTree) (package : WrittenPath) : Option String → Option WrittenPath
  | some inside => file? files (package.join inside)
  | none =>
    let named := (Manifest.read? files package).bind fun m =>
      m.entries.findSome? fun entry => file? files (package.join entry)
    named.or (file? files (package.join "index"))

/-- The directories in which packages are looked up, the nearest first: none above the root. -/
def lookupDirs (root : WrittenPath) : List WrittenPath → List WrittenPath
  | [] => []
  | dir :: dirs => if dir.steps = root.steps then [dir] else dir :: lookupDirs root dirs

def dir? (files : FileTree) (root : WrittenPath) (importer : WrittenPath) (package : String) :
    Option WrittenPath := do
  let start ← importer.parent?
  ((lookupDirs root start.ancestors).map fun dir => (dir.join "node_modules").join package).find?
    files.isDirectory

def resolve? (files : FileTree) (root : WrittenPath) (importer : WrittenPath)
    (specifier : String) : Option WrittenPath := do
  let (package, inside?) := Specifier.package specifier
  entry? files (← dir? files root importer package) inside?

def declared (files : FileTree) (root : WrittenPath) : List String :=
  ((Manifest.read? files root).map Manifest.declared).getD []

end TypeStrip.Package
