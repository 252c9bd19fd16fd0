/-
GraphShapes.Main — the command line.

The words of the command line say which file or object is needed; it is read,
the command is answered, and the answer is printed or written. Objects are
files under the directory that `GRAPH_SHAPES_OBJECTS` names, one directory per
bucket.
-/
import GraphShapes.Command

namespace GraphShapes

/-- The bytes of a file, if it can be read. -/
def readBytes? (name : String) : IO (Option (List UInt8)) := do
  try
    return some (← IO.FS.readBinFile name).toList
  catch _ => return none

/-- The file that a command needs. -/
def neededFiles : Option Command → IO Files
  | some (.infer r) => do
    match ← readBytes? r.model with
    | some bytes => return ⟨[(Path.ofString r.model, bytes)]⟩
    | none => return {}
  | _ => return {}

/-- The object that a command needs. -/
def neededObjects : Option Command → IO Objects
  | some (.run r) => do
    match Address.ofString r.uri, ← IO.getEnv "GRAPH_SHAPES_OBJECTS" with
    | .ok a, some directory =>
      match ← readBytes? (directory ++ "/" ++ a.bucket ++ "/" ++ a.key) with
      | some bytes => return [(a, bytes)]
      | none => return []
    | _, _ => return []
  | _ => return []

/-- The characters in the middle of a new file's name. -/
def middleChars : List Char := "abcdefghijklmnopqrstuvwxyz0123456789_".toList

/-- A maker of files in the directory for temporary files, whose names nobody else has. -/
def temporaryMaker : IO FileMaker := do
  let directory := (← IO.getEnv "TMPDIR").getD "/tmp"
  let middle ← (List.replicate 8 ()).mapM fun _ => do
    return middleChars.getD (← IO.rand 0 (middleChars.length - 1)) '_'
  return Transfer.makerIn directory (String.ofList middle)

/-- Writes a report under its path. -/
def writeExport (e : Export) : IO Unit := do
  IO.FS.createDirAll e.parent
  IO.FS.writeFile e.path e.text

/-- What a reply says beyond its output. -/
def remark : Command.Reply → Option String
  | .failed f _ => some ((f.message?.map Points.escaped).getD "failed")
  | .usage => some "usage: infer MODEL [-i INPUT]... | run URI [--output-dir DIRECTORY]"
  | _ => none

end GraphShapes

open GraphShapes in
/-- Answers the words of the command line. -/
def main (words : List String) : IO UInt32 := do
  let command := Command.read words
  let (reply, written) := Command.answer (← temporaryMaker) (← neededFiles command)
    (← neededObjects command) words
  written.forM writeExport
  IO.print reply.output
  IO.eprint reply.errorOutput
  (remark reply).forM fun line => IO.eprintln line
  return reply.exitCode.toUInt32
