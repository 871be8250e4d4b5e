import TypeStrip.Command.Probe
import TypeStrip.Command.Run

/-! The program: looks at the files that its command may need, and then does what it asks for. -/
namespace TypeStrip.Command

def look (files : FileTree) (p : ModulePath) : IO FileTree := do
  match ← (IO.FS.readBinFile p.text).toBaseIO with
  | .ok bytes => return files.write p.segments (String.fromUTF8? bytes)
  | .error (.inappropriateType ..) => return files.makeDirectories p.segments
  | .error _ => return files

/-- Looks at paths until there are none that were not looked at. -/
partial def gather (wanted : FileTree → List ModulePath) (seen : List ModulePath)
    (files : FileTree) : IO FileTree := do
  let fresh := (wanted files).eraseDups.filter fun p => !seen.contains p
  if fresh.isEmpty then return files
  gather wanted (fresh ++ seen) (← fresh.foldlM look files)

end TypeStrip.Command

open TypeStrip in
def main (args : List String) : IO UInt32 := do
  let cwd := ModulePath.ofText ((← IO.getEnv "PWD").getD "/")
  let request := Command.Request.ofArguments args
  let files ← Command.gather (request.probes · cwd) [] {}
  let result := request.outcome files cwd
  IO.print result.output
  IO.eprint result.complaint
  return result.exit.toUInt32
