import Std.Time.DateTime.Timestamp
import Stencil.Command.Outcome
/-!
# The program

A command line runs on the working directory and what lies below it. The files are read first; what
the command leaves changed is written at the end. Its clock stands still while it runs.
-/
namespace Stencil

/-- The nodes below a directory, found at the given place; what cannot be read is passed over. -/
partial def readNodes (directory : String) (place : List Text) :
    IO (List (List Text × Node)) := do
  let mut nodes := []
  for entry in ← (← IO.FS.realPath directory).readDir do
    let here := place ++ [entry.fileName.toList]
    let path := entry.path.toString
    match ← entry.path.symlinkMetadata.toBaseIO with
    | .error _ => pure ()
    | .ok metadata =>
      match metadata.type with
      | .dir =>
        match ← (readNodes path here).toBaseIO with
        | .ok below => nodes := nodes ++ (here, .directory) :: below
        | .error _ => pure ()
      | _ =>
        match ← (IO.FS.readBinFile path).toBaseIO with
        | .ok content => nodes := nodes ++ [(here, .file content.toList)]
        | .error _ => pure ()
  return nodes

/-- Write what stands at a place below the working directory. -/
def writeNode (place : List Text) (node : Node) : IO Unit := do
  let path := String.ofList (Path.ofSegments place)
  match node with
  | .directory => IO.FS.createDirAll path
  | .file content => IO.FS.writeBinFile path content.toByteArray

/-- Run a command line in the working directory. -/
def runInPlace (args : List String) : IO UInt32 := do
  let root := (← IO.currentDir).toString
  let disk : Disk := { root := root.toList, nodes := ← readNodes root [] }
  let now := (← Std.Time.Timestamp.now).toNanosecondsSinceUnixEpoch.val.toNat
  let outcome := Command.runArgs disk { reading := fun _ => now } args
  for (place, node) in outcome.disk.nodes do
    unless disk.node? place == some node do
      writeNode place node
  (← IO.getStderr).putStr (String.ofList outcome.stderr)
  (← IO.getStdout).putStr (String.ofList outcome.stdout)
  return UInt32.ofNat outcome.exit

end Stencil

def main (args : List String) : IO UInt32 := Stencil.runInPlace args
