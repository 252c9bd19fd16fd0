/-
GraphShapes.Files — files that can be read.

A store of files is a list of them under their paths; the directories are the
ones that lie on the way to a file. Reading walks a path name by name, as the
paths of a file system are walked: a name is looked up in a directory, never
in a file, and a name that is too long is refused where it is met. A file that
is listed under the very path asked for needs no walk.
-/
import GraphShapes.Misuse
import GraphShapes.Path
import GraphShapes.Text.Utf8

namespace GraphShapes

/-- Files under their paths, each with its bytes. -/
structure Files where
  entries : List (Path × List UInt8) := []
  deriving Repr, Inhabited

namespace Files

/-- The most bytes that a name may have. -/
def maxName : Nat := 255

/-- The most bytes that a path may have. -/
def maxPath : Nat := 4095

/-- The file at a path. -/
def file? (files : Files) (p : Path) : Option (List UInt8) :=
  (files.entries.find? fun (q, _) => q == p).map (·.2)

/-- Is there a directory at a path? Every root is one. -/
def isDirectory (files : Files) (p : Path) : Bool :=
  p.names.isEmpty ||
    files.entries.any fun (q, _) => q.root == p.root && p.names.length < q.names.length
      && p.names.isPrefixOf q.names

/-- One name on the way: a double dot leads to the directory above. -/
def descend (p : Path) (name : String) : Path :=
  if name = ".." && !p.names.isEmpty then { p with names := p.names.dropLast }
  else p.append name

/-- Walks from a path along further names. -/
def walk (files : Files) : Path → List String → Except Misuse Path
  | p, [] => .ok p
  | p, name :: rest =>
    if files.isDirectory p then
      if name.utf8ByteSize > maxName then .error .badPath
      else walk files (descend p name) rest
    else if (files.file? p).isSome then .error .notDirectory
    else .error .fileMissing

/-- The path that a path leads to. -/
def resolve (files : Files) (p : Path) : Except Misuse Path :=
  if (files.file? p).isSome then .ok p else files.walk { p with names := [] } p.names

/-- The bytes of the file at a path; a text that ends in a slash asks for a
directory. -/
def readAt (files : Files) (p : Path) (asDirectory : Bool) : Except Misuse (List UInt8) := do
  let p ← files.resolve p
  if files.isDirectory p then .error .isDirectory
  match files.file? p with
  | some bytes => if asDirectory then .error .notDirectory else .ok bytes
  | none => .error .fileMissing

/-- The bytes of the file that a text names. -/
def readBytes (files : Files) (name : String) : Except Misuse (List UInt8) :=
  if name.contains '\x00' then .error .badValue
  else if name.isEmpty then .error .fileMissing
  else if name.utf8ByteSize > maxPath then .error .badPath
  else files.readAt (Path.ofString name) (name.toList.getLast? == some '/')

/-- Text with every line end made a line feed. -/
def unifyLineEnds : List Char → List Char
  | '\r' :: '\n' :: rest => '\n' :: unifyLineEnds rest
  | '\r' :: rest => '\n' :: unifyLineEnds rest
  | c :: rest => c :: unifyLineEnds rest
  | [] => []

/-- Bytes as text with line feeds at the line ends. -/
def textOf (bytes : List UInt8) : Except Misuse String :=
  match Text.Utf8.decode? bytes with
  | some s => .ok (String.ofList (unifyLineEnds s.toList))
  | none => .error .undecodable

/-- The text of the file at a path. -/
def readText (files : Files) (p : Path) : Except Misuse String := do
  textOf (← files.readBytes p.toString)

end Files

end GraphShapes
