/-
GraphShapes.Input.Description — inputs described in text.

`int:5`, `bool:true`, `ints:3,4`, `scalar` and `2x3` describe an integer, a
truth value, a list of integers, a tensor without axes and a tensor with the
given sizes. Numbers are read leniently, letters of `true`, `false` and the
sign between sizes in either case, and blanks around the whole are dropped.
-/
import GraphShapes.Datum
import GraphShapes.Fault

namespace GraphShapes.Input

/-- A described input. -/
inductive Described where
  | int (n : Int)
  | bool (b : Bool)
  | ints (ns : List Int)
  | tensor (sizes : List Int)
  deriving DecidableEq, Repr, Inhabited

/-- The input that a description stands for. -/
def Described.toDatum : Described → Datum
  | .int n => .int n
  | .bool b => .bool b
  | .ints ns => .list (ns.map .int)
  | .tensor sizes => .placeholder (sizes.map .int)

/-- The fields between separators. -/
def fields (isSeparator : Char → Bool) : List Char → List (List Char)
  | [] => [[]]
  | c :: rest =>
    if isSeparator c then [] :: fields isSeparator rest
    else
      match fields isSeparator rest with
      | [] => [[c]]
      | first :: others => (c :: first) :: others

/-- Integers between separators. -/
def readInts (isSeparator : Char → Bool) (cs : List Char) : Option (List Int) :=
  (fields isSeparator cs).mapM Decimal.readInt

/-- A truth value. -/
def readBool (cs : List Char) : Option Bool :=
  match String.ofList (cs.map Char.toLower) with
  | "true" => some true
  | "1" => some true
  | "false" => some false
  | "0" => some false
  | _ => none

/-- A description without blanks around it. -/
def readTrimmed : List Char → Option Described
  | 'i' :: 'n' :: 't' :: ':' :: rest => (Decimal.readInt rest).map .int
  | 'b' :: 'o' :: 'o' :: 'l' :: ':' :: rest => (readBool rest).map .bool
  | ['i', 'n', 't', 's', ':'] => some (.ints [])
  | 'i' :: 'n' :: 't' :: 's' :: ':' :: rest => (readInts (· == ',') rest).map .ints
  | ['s', 'c', 'a', 'l', 'a', 'r'] => some (.tensor [])
  | cs => (readInts (fun c => c == 'x' || c == 'X') cs).map .tensor

/-- The input that a text describes. -/
def describe (s : String) : Except InferenceError Described :=
  let cs := Text.trim s.toList
  match readTrimmed cs with
  | some d => .ok d
  | none => .error (.inputText (String.ofList cs))

end GraphShapes.Input
