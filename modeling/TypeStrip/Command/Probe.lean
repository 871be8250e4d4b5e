import TypeStrip.Command.Arguments
import TypeStrip.Project.Basic

/-!
Which paths a command may look at. What they depend on is what is known of the files already, so
the paths are asked for again until all of them are known.
-/
namespace TypeStrip.Command

def wayTo (p : WrittenPath) : List ModulePath :=
  (List.range p.parts.length).map fun n => .ofParts (p.parts.take (n + 1))

def fileProbes (p : WrittenPath) : List ModulePath := wayTo p ++ (ModulePath.ofWritten p).candidates

def packageProbes (files : FileTree) (specifier : String) (dir : WrittenPath) :
    List ModulePath :=
  let (package, inside?) := Specifier.package specifier
  let home := (dir.join "node_modules").join package
  let entries := match inside? with
    | some inside => [inside]
    | none => "index" :: ((Manifest.read? files home).map Manifest.entries).getD []
  wayTo (home.join Manifest.fileName) ++ entries.flatMap fun e => fileProbes (home.join e)

def importProbes (files : FileTree) (importer : ModulePath) (specifier : String) :
    List ModulePath :=
  if Specifier.isHostModule specifier then []
  else if Specifier.isRelative specifier then fileProbes (importer.sibling specifier).written
  else if WrittenPath.isAbsolute specifier then fileProbes (.ofText specifier)
  else importer.dir.written.ancestors.flatMap (packageProbes files specifier)

def entryProbes (files : FileTree) : List String × Entry → List ModulePath
  | (segments, .file (some content)) =>
    match scanImports ⟨segments⟩ content with
    | .ok specifiers => specifiers.flatMap (importProbes files ⟨segments⟩)
    | .error _ => []
  | _ => []

def projectProbes (files : FileTree) (cwd : ModulePath) (entry : String) (root? : Option String) :
    List ModulePath :=
  let entry := cwd.join entry
  let root := match root? with
    | some root => cwd.join root
    | none => entry.dir
  wayTo (root.written.join Config.fileName) ++ fileProbes entry.written ++
    files.entries.flatMap (entryProbes files)

def probes (files : FileTree) (cwd : ModulePath) : Command → List ModulePath
  | .run entry root? _ _ | .graph entry root? => projectProbes files cwd entry root?
  | .transpile file _ _ =>
    wayTo (cwd.written.join file) ++ wayTo ((cwd.join file).dir.written.join Config.fileName)
  | .deps file | .lex file _ | .parse file => wayTo (cwd.written.join file)

def Request.probes (files : FileTree) (cwd : ModulePath) : Request → List ModulePath
  | .command c => c.probes files cwd
  | _ => []

end TypeStrip.Command
