import TypeStrip.Package.Lookup

/-! Which file an import asks for. -/
namespace TypeStrip

abbrev Resolver := FileTree → ModulePath → String → Option ModulePath

def FileTree.names (files : FileTree) (p : ModulePath) : Bool :=
  files.isFile p.written || p.candidates.any fun c => files.isFile c.written

namespace Resolver

def named? (files : FileTree) (p : ModulePath) : Option ModulePath :=
  if files.names p then some p else none

/-- The file of a package. Without a root, the project is that of the importing module. -/
def package? (root? : Option WrittenPath) : Resolver := fun files importer specifier => do
  let root ← root?.or (Package.projectRoot? files importer.dir.written)
  return .ofWritten (← Package.resolve? files root importer.written specifier)

/-- Paths name files on disk and all other specifiers packages. A path is kept as it is written:
what it lacks is added later. -/
def onDisk (root? : Option WrittenPath) : Resolver := fun files importer specifier =>
  if Specifier.isHostModule specifier then none
  else if Specifier.isRelative specifier then named? files (importer.sibling specifier)
  else if WrittenPath.isAbsolute specifier then named? files (.ofText specifier)
  else package? root? files importer specifier

end Resolver

/-! ### Tables -/

/-- A table of files, by specifier and importing module. An entry without a module is for all of
them. -/
structure ResolverTable where
  entries : List ((Option ModulePath × String) × ModulePath) := []

namespace ResolverTable

def insert (table : ResolverTable) (importer : Option ModulePath) (specifier : String)
    (target : ModulePath) : ResolverTable :=
  ⟨((importer, specifier), target) ::
    table.entries.filter fun (key, _) => key != (importer, specifier)⟩

/-- The file of an import. An entry for its module counts before one for all modules. -/
def find? (table : ResolverTable) (importer : ModulePath) (specifier : String) :
    Option ModulePath :=
  (table.entries.lookup (some importer, specifier)).or
    (table.entries.lookup (none, specifier))

def resolver (table : ResolverTable) : Resolver := fun _ => table.find?

end ResolverTable

end TypeStrip
