/-
GraphShapes.Path — paths of files.

A path is a root and the names on the way from it. Empty names and single dots
say nothing and are dropped, double dots are kept. One leading slash, or three
and more, is the root `/`; two slashes are a root of their own. The suffix of
a path is what its last name has from the last point on, unless the point
stands first or last.
-/
import GraphShapes.Text.Letter

namespace GraphShapes

/-- A path: its root, which is empty unless the path is absolute, and names. -/
structure Path where
  root : String := ""
  names : List String := []
  deriving DecidableEq, Repr, Inhabited

namespace Path

/-- The names between the slashes of a text. -/
def segments (cs : List Char) : List String :=
  let step (c : Char) (acc : List (List Char)) : List (List Char) :=
    if c = '/' then [] :: acc
    else match acc with
      | [] => [[c]]
      | first :: rest => (c :: first) :: rest
  (cs.foldr step [[]]).map String.ofList

/-- The root that a text begins with. -/
def rootOf : List Char → String
  | '/' :: '/' :: '/' :: _ => "/"
  | '/' :: '/' :: _ => "//"
  | '/' :: _ => "/"
  | _ => ""

/-- The path that a text writes. -/
def ofString (s : String) : Path :=
  ⟨rootOf s.toList, (segments s.toList).filter fun n => n != "" && n != "."⟩

/-- A path as text; the empty path is a dot. -/
def toString (p : Path) : String :=
  let s := p.root ++ "/".intercalate p.names
  if s.isEmpty then "." else s

/-- A path below another. -/
def append (p : Path) (name : String) : Path := { p with names := p.names ++ [name] }

/-- What a name has from its last point on, unless the point stands first or
last. -/
def suffixOf (name : String) : String :=
  let behind := name.toList.reverse.takeWhile (· ≠ '.')
  let before := name.length - behind.length
  if before ≤ 1 || behind.isEmpty then "" else String.ofList ('.' :: behind.reverse)

/-- The suffix of a path. -/
def suffix (p : Path) : String :=
  match p.names.getLast? with
  | some name => suffixOf name
  | none => ""

end Path

end GraphShapes
