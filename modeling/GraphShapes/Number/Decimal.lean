/-
GraphShapes.Number.Decimal — integers as decimal text.

Reading is lenient: blanks around the number, a sign, digits of any script,
single underscores between digits. Writing is plain. Both stop at numbers of
4300 digits: a longer text is not read, and a longer integer has no text, so
whoever has to print one fails instead.
-/
import GraphShapes.Number.Power
import GraphShapes.Text.Blank
import GraphShapes.Text.Digit

namespace GraphShapes.Decimal

open GraphShapes.Text

/-- The most digits that a number's text may have. -/
def maxDigits : Nat := 4300

/-- The least magnitude that is too long to write. It is not computed in proofs. -/
@[irreducible] def bound : Nat := 10 ^ maxDigits

/-- Has the integer a text? -/
def isWritable (n : Int) : Bool := n.natAbs < bound

theorem pow_le_bound {n : Nat} (h : n ≤ maxDigits) : 10 ^ n ≤ bound := by
  unfold bound
  exact Nat.pow_le_pow_right (by decide) h

/-- Every byte has a text. -/
theorem byte_lt_bound : 2 ^ 8 < bound :=
  calc 2 ^ 8 < 10 ^ 3 := by decide
    _ ≤ bound := pow_le_bound (by decide)

@[simp] theorem isWritable_bound : isWritable bound = false := by
  simp [isWritable]

/-- One or more digits with single underscores between them. -/
def readDigits : List Char → Option (List Nat)
  | [] => none
  | [c] => (digitValue? c).map ([·])
  | c :: '_' :: rest => do return (← digitValue? c) :: (← readDigits rest)
  | c :: rest => do return (← digitValue? c) :: (← readDigits rest)

/-- The number that a digit list writes, most significant digit first. -/
def ofDigits (digits : List Nat) : Nat := digits.foldl (fun n d => 10 * n + d) 0

/-- An unsigned number. -/
def readNat (cs : List Char) : Option Nat := do
  let digits ← readDigits cs
  if digits.length ≤ maxDigits then some (ofDigits digits) else none

/-- An integer in the lenient syntax. -/
def readInt (cs : List Char) : Option Int :=
  match strip isMargin cs with
  | '-' :: rest => (readNat rest).map fun n => -(n : Int)
  | '+' :: rest => (readNat rest).map Int.ofNat
  | rest => (readNat rest).map Int.ofNat

/-- An integer in the lenient syntax. -/
def read? (s : String) : Option Int := readInt s.toList

/-- Digits of the common script and what follows them. -/
def leadingDigits? (cs : List Char) : Option (Nat × List Char) :=
  let digits := cs.takeWhile Char.isDigit
  if digits.isEmpty then none
  else some (ofDigits (digits.map fun c => c.toNat - 48), cs.dropWhile Char.isDigit)

/-- The integer that a text begins with, blanks and a sign allowed in front, and
what follows it. Only digits of the common script count. -/
def leading? (cs : List Char) : Option (Int × List Char) :=
  match cs.dropWhile fun c => c = ' ' || (9 ≤ c.toNat && c.toNat ≤ 13) with
  | '-' :: rest => (leadingDigits? rest).map fun (n, rest) => (-(n : Int), rest)
  | '+' :: rest => (leadingDigits? rest).map fun (n, rest) => ((n : Int), rest)
  | rest => (leadingDigits? rest).map fun (n, rest) => ((n : Int), rest)

/-- The plain text of an integer. -/
def render (n : Int) : String := toString n

/-- Integers between brackets, separated by a comma and a space. -/
def renderList (ns : List Int) : String :=
  "[" ++ ", ".intercalate (ns.map render) ++ "]"

end GraphShapes.Decimal
