import TypeStrip.Path.Normal

/-! The files that modules are read from. -/
namespace TypeStrip

/-- What a name in a directory stands for. A file without content is not valid text. -/
inductive Entry where
  | file (content : Option String)
  | directory
deriving DecidableEq, Repr

/-- The files and directories below the root. Every directory but the root has an entry. -/
structure FileTree where
  entries : List (List String × Entry) := []

inductive FileFault where
  | notFound
  | notADirectory
  | isADirectory
  | invalidText
deriving DecidableEq, Repr

def FileFault.message : FileFault → String
  | .notFound => "No such file or directory (os error 2)"
  | .notADirectory => "Not a directory (os error 20)"
  | .isADirectory => "Is a directory (os error 21)"
  | .invalidText => "stream did not contain valid UTF-8"

namespace FileTree

def entry? (files : FileTree) (segments : List String) : Option Entry :=
  if segments.isEmpty then some .directory else files.entries.lookup segments

/-- What the parts of a path lead to from a directory. Every part but the last has to lead to a
directory, also when the next one leads back. -/
def walk (files : FileTree) (here : List String) : List String → Except FileFault Entry
  | [] =>
    match files.entry? here with
    | some entry => .ok entry
    | none => .error .notFound
  | part :: parts =>
    match files.entry? here with
    | some .directory => files.walk (ModulePath.step here part) parts
    | some (.file _) => .error .notADirectory
    | none => .error .notFound

def find (files : FileTree) (p : WrittenPath) : Except FileFault Entry := files.walk [] p.parts

def isFile (files : FileTree) (p : WrittenPath) : Bool :=
  match files.find p with
  | .ok (.file _) => true
  | _ => false

def isDirectory (files : FileTree) (p : WrittenPath) : Bool :=
  match files.find p with
  | .ok .directory => true
  | _ => false

def read (files : FileTree) (p : WrittenPath) : Except FileFault String :=
  match files.find p with
  | .ok (.file (some content)) => .ok content
  | .ok (.file none) => .error .invalidText
  | .ok .directory => .error .isADirectory
  | .error fault => .error fault

def fileCount (files : FileTree) : Nat :=
  files.entries.countP fun (_, entry) => entry != .directory

/-! ### Changes -/

def remove (files : FileTree) (segments : List String) : FileTree :=
  ⟨files.entries.filter fun (key, _) => key != segments⟩

/-- The tree without a file. Anything else that is there stays. -/
def removeFile (files : FileTree) (segments : List String) : FileTree :=
  if files.isFile ⟨segments⟩ then files.remove segments else files

def put (files : FileTree) (segments : List String) (entry : Entry) : FileTree :=
  ⟨(segments, entry) :: (files.remove segments).entries⟩

/-- The tree with all directories on a way, those that exist already left as they are. -/
def makeDirectories (files : FileTree) (segments : List String) : FileTree :=
  (List.range segments.length).foldl
    (fun files n =>
      let way := segments.take (n + 1)
      if (files.entry? way).isSome then files else files.put way .directory)
    files

def write (files : FileTree) (segments : List String) (content : Option String) : FileTree :=
  (files.makeDirectories segments.dropLast).put segments (.file content)

end FileTree

end TypeStrip
