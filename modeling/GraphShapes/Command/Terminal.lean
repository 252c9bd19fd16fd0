/-
GraphShapes.Command.Terminal — lines as they are printed.

Names and paths come from documents and may hold the control sequences by
which terminals are told to change colours or clear the screen. Such sequences
are left out: an escape, a bracket, numbers, and the letter that ends them. A
half of a surrogate pair has no bytes; a line with one cannot be printed,
while error lines show it by number.
-/
import GraphShapes.Misuse
import GraphShapes.Text.Points

namespace GraphShapes.Command.Terminal

/-- May a code point stand among the numbers of a control sequence? -/
def isParameter (n : Nat) : Bool := n = 0x3b || n = 0x3f || (0x30 ≤ n && n ≤ 0x39)

/-- Is a code point a letter that may end a control sequence? -/
def isFinal (n : Nat) : Bool := (0x41 ≤ n && n ≤ 0x5a) || (0x61 ≤ n && n ≤ 0x7a)

/-- How many code points the control sequence takes that a text begins with. -/
def width? : List Nat → Option Nat
  | 0x1b :: 0x5b :: rest =>
    match rest.dropWhile isParameter with
    | n :: _ => if isFinal n then some ((rest.takeWhile isParameter).length + 3) else none
    | [] => none
  | _ => none

/-- Code points without control sequences; `skip` of them still belong to one. -/
def plainCodes : (skip : Nat) → List Nat → List Nat
  | _, [] => []
  | skip + 1, _ :: rest => plainCodes skip rest
  | 0, n :: rest =>
    match width? (n :: rest) with
    | some width => plainCodes (width - 1) rest
    | none => n :: plainCodes 0 rest

/-- A text without control sequences. -/
def plain (p : Points) : Points := ⟨plainCodes 0 p.codes⟩

/-- A line as it is printed. -/
def line (p : Points) : Except Misuse String :=
  match (plain p).toString? with
  | some s => .ok (s ++ "\n")
  | none => .error .unencodable

/-- An error line as it is printed. -/
def errorLine (p : Points) : String := (plain p).escaped ++ "\n"

/-- Lines as they are printed, up to one that cannot be. -/
def lines : List Points → String × Option Misuse
  | [] => ("", none)
  | p :: rest =>
    match line p with
    | .error m => ("", some m)
    | .ok s =>
      let (text, misuse) := lines rest
      (s ++ text, misuse)

end GraphShapes.Command.Terminal
