/-
GraphShapes.Misuse — ways in which a value does not fit its use.

Some failures carry nothing but their kind: a value of the wrong kind where
a number or a container was needed, a file that is not there. They name no
operator and no place in the graph.
-/
namespace GraphShapes

/-- A failure that carries nothing but its kind. -/
inductive Misuse where
  /-- A value of the wrong kind. -/
  | wrongKind
  /-- A value of the right kind that is not acceptable. -/
  | badValue
  /-- A value without the member that was asked for. -/
  | missingMember
  /-- A number that no entry of a table has. -/
  | missingEntry
  /-- A position outside a list. -/
  | outOfRange
  | divisionByZero
  /-- A number beyond those that its type has. -/
  | overflow
  | fileMissing
  | isDirectory
  /-- A file where a directory was needed. -/
  | notDirectory
  /-- A path that no file can have. -/
  | badPath
  /-- Bytes that are no text. -/
  | undecodable
  /-- A text that no bytes spell, since half a surrogate pair stands alone in it. -/
  | unencodable
  /-- A text that breaks the grammar of literals. -/
  | badLiteral
  /-- A document whose containers are nested too deeply. -/
  | tooDeep
  /-- Bytes that are no model. -/
  | malformedModel
  /-- A tensor whose elements are in another file, which is not there. -/
  | elsewhere
  deriving DecidableEq, Repr, Inhabited

end GraphShapes
