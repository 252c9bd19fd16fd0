/-
GraphShapes.Transfer — from an object store to a report.

An object is addressed by scheme, bucket and key. It is fetched into a new
local file that keeps the suffix of the key, read in the format of that suffix,
inferred with the inputs that the graph declares, and reported as text under a
directory. Of the name of a new file only the two ends are asked for; a maker
of files says what stands in between.
-/
import GraphShapes.Format
import GraphShapes.Report

namespace GraphShapes

/-- Where an object is. -/
structure Address where
  bucket : String
  key : String
  deriving DecidableEq, Repr, Inhabited

namespace Address

/-- The bucket up to the first slash and the key behind it. -/
def split (cs : List Char) : Except Fault Address :=
  match cs.dropWhile (· ≠ '/') with
  | _ :: key => .ok ⟨String.ofList (cs.takeWhile (· ≠ '/')), String.ofList key⟩
  | [] => .error (.misuse .badValue)

/-- The address that a text writes behind its scheme. -/
def ofString (s : String) : Except Fault Address :=
  match s.toList with
  | 's' :: '3' :: ':' :: '/' :: '/' :: rest => split rest
  | _ => .error .badAddress

/-- The suffix of an object's key. -/
def suffix (a : Address) : String := (Path.ofString a.key).suffix

end Address

/-- The objects of a store. -/
abbrev Objects := List (Address × List UInt8)

/-- A maker of files: for what a name is to begin and to end with, the path of a
new file, if there can be one. -/
abbrev FileMaker := String → String → Except Misuse String

/-- A fetched object: the file that it is in, and the files that there are. -/
structure Fetched where
  file : Path
  files : Files
  deriving Repr, Inhabited

/-- What a transfer leaves behind: a text under a path. -/
structure Export where
  path : String
  text : String
  deriving DecidableEq, Repr, Inhabited

/-- The directory that holds what a transfer leaves behind. -/
def Export.parent (e : Export) : String :=
  let p := Path.ofString e.path
  { p with names := p.names.dropLast }.toString

namespace Transfer

/-- A name that a file can have. -/
def checkName (name : String) : Except Misuse Unit :=
  if name.contains '\x00' then .error .badValue
  else if name.utf8ByteSize > Files.maxName then .error .badPath
  else .ok ()

/-- What the names of fetched files begin with. -/
def stem : String := "shapeflow_model_"

/-- The maker of files in a directory whose names have a given middle. -/
def makerIn (directory middle : String) : FileMaker := fun start suffix => do
  let name := start ++ middle ++ suffix
  checkName name
  return ((Path.ofString directory).append name).toString

/-- Fetches an object into a new file that keeps the suffix of its key. -/
def fetch (make : FileMaker) (objects : Objects) (a : Address) : Except Misuse Fetched := do
  let file := Path.ofString (← make stem a.suffix)
  match objects.lookup a with
  | some bytes => .ok ⟨file, ⟨[(file, bytes)]⟩⟩
  | none => .error .fileMissing

/-- Fetches the object at the address that a text writes. -/
def download (make : FileMaker) (objects : Objects) (uri : String) : Except Fault Fetched := do
  let a ← Address.ofString uri
  Fault.ofMisuse (fetch make objects a)

/-- The report of a graph's run on the inputs that it declares. -/
def report (endOffset : Bool) (g : Graph) : Except Fault Report := do
  let inputs ← Input.declaredInputs g
  let outcome := inferShapes g inputs { endOffset }
  let _ ← outcome.result
  Report.ofEngine g outcome.engine

/-- The file under a directory that reports go to. -/
def target (directory : String) : Path := (Path.ofString directory).append "results.json"

/-- A path that can be made. -/
def checkPath (p : Path) : Except Misuse Unit :=
  if p.toString.contains '\x00' then .error .badValue
  else if Files.maxPath < p.toString.utf8ByteSize then .error .badPath
  else p.names.forM checkName

/-- The report of an object, to be written under a directory. -/
def run [Json.Nesting] (make : FileMaker) (objects : Objects) (uri directory : String)
    (endOffset : Bool) : Except Fault Export := do
  let fetched ← download make objects uri
  let g ← loadGraph fetched.files true fetched.file.toString
  let r ← report endOffset g
  Fault.ofMisuse (checkPath (Path.ofString directory))
  let text ← Fault.ofMisuse r.text
  Fault.ofMisuse (checkPath (target directory))
  return ⟨(target directory).toString, text⟩

end Transfer

end GraphShapes
