/-
GraphShapes.Number.Shortest — the shortest decimal text of a number.

A number's text has the fewest digits that still read back as the number, and
of the texts with that many digits the one nearest to it. The search is over
decimal grids: for one digit, two digits and so on it looks at the two grid
points beside the number, and stops at the first grid on which one of them
lies in the interval that rounds to the number. Everything is a comparison of
natural numbers.

The text is positional while the leading digit stands between the fourth place
after the point and the sixteenth before it, and scientific beyond.
-/
import GraphShapes.Number.Binary

namespace GraphShapes.Binary

/-- Decimal digits, most significant first, and the power of ten of the first. -/
structure Digits where
  digits : List Nat
  exponent : Int
  deriving DecidableEq, Repr

/-- The interval of reals that round to a number, all in quarters of its last
place: the number, its lower end and its upper end, with the exponent of a
quarter. -/
structure Interval where
  lower : Nat
  point : Nat
  upper : Nat
  exponent : Int
  /-- The ends belong to the interval. -/
  closed : Bool
  deriving DecidableEq, Repr

/-- The interval of a positive number of the sixty-four bit format. -/
def interval (m : Nat) (e : Int) : Interval :=
  let unit := max (e + m.log2 - 52) (-1074)
  let full := wholePart m (e - unit)
  let below := if full = 2 ^ 52 && unit != -1074 then 1 else 2
  ⟨4 * full - below, 4 * full, 4 * full + 2, unit - 2, full % 2 == 0⟩

/-- Two to a power as a quotient. -/
def quotientOf (base : Nat) : Int → Nat × Nat
  | .ofNat k => (base ^ k, 1)
  | .negSucc k => (1, base ^ (k + 1))

/-- The point of the grid `10 ^ power` to try, of the two beside the number. -/
def gridPoint? (iv : Interval) (power : Int) : Option Nat :=
  let (two, half) := quotientOf 2 iv.exponent
  let (ten, tenth) := quotientOf 10 power
  let up := two * tenth
  let down := half * ten
  let inside (t : Nat) : Bool :=
    if iv.closed then iv.lower * up ≤ t * down && t * down ≤ iv.upper * up
    else iv.lower * up < t * down && t * down < iv.upper * up
  let t := iv.point * up / down
  let rest := iv.point * up - t * down
  let nearer := if 2 * rest < down || (2 * rest == down && t % 2 == 0) then t else t + 1
  let other := if nearer = t then t + 1 else t
  if inside nearer then some nearer
  else if inside other then some other
  else none

/-- The power of ten of a positive quotient's leading digit, for quotients
above `10 ^ -400`. -/
def leadingPower (num den : Nat) : Int :=
  ((Nat.toDigits 10 (num * 10 ^ 400 / den)).length : Int) - 401

/-- Searches the grids of `count`, `count + 1`, … digits. -/
def searchGrids (iv : Interval) (lead : Int) : Nat → Int → Nat × Int
  | 0, count => (iv.point, lead - count)
  | tries + 1, count =>
    let power := lead - count + 1
    match gridPoint? iv power with
    | some t => (t, power)
    | none => searchGrids iv lead tries (count + 1)

/-- The shortest digits of a positive number. -/
def shortest (m : Nat) (e : Int) : Digits :=
  let iv := interval m e
  let (num, den) := quotientOf 2 e
  let lead := leadingPower (m * num) den
  let (t, power) := searchGrids iv lead 17 1
  let all := (Nat.toDigits 10 t).map fun c => c.toNat - 48
  let kept := (all.reverse.dropWhile (· == 0)).reverse
  ⟨kept, power + all.length - 1⟩

/-- How a shortest text is laid out. -/
structure Layout where
  /-- The least power of the leading digit that is written positionally. -/
  leastPositional : Int
  /-- The least power of the leading digit that is written scientifically again. -/
  scientificFrom : Int
  /-- The least number of exponent digits. -/
  exponentWidth : Nat
  deriving DecidableEq, Repr

/-- Positional from `0.0001` up to sixteen places before the point. -/
def layout : Layout := ⟨-4, 16, 2⟩

/-- Digits as text. -/
def digitText (ds : List Nat) : String := String.ofList (ds.map fun d => Char.ofNat (48 + d))

/-- An exponent with its sign. -/
def exponentText (width : Nat) (e : Int) : String :=
  let body := toString e.natAbs
  let padding := String.ofList (List.replicate (width - body.length) '0')
  (if e < 0 then "-" else "+") ++ padding ++ body

/-- Digits laid out with a point or an exponent. -/
def Digits.text (l : Layout) (d : Digits) : String :=
  if l.leastPositional ≤ d.exponent && d.exponent < l.scientificFrom then
    match d.exponent with
    | .negSucc k => "0." ++ digitText (List.replicate k 0 ++ d.digits)
    | .ofNat k =>
      let whole := d.digits.take (k + 1)
      let padded := whole ++ List.replicate (k + 1 - whole.length) 0
      let rest := d.digits.drop (k + 1)
      digitText padded ++ "." ++ (if rest.isEmpty then "0" else digitText rest)
  else
    let rest := d.digits.drop 1
    digitText (d.digits.take 1) ++ (if rest.isEmpty then "" else "." ++ digitText rest)
      ++ "e" ++ exponentText l.exponentWidth d.exponent

/-- The shortest text of a number. -/
def text : Binary → String
  | .nan _ => "nan"
  | .infinite s => if s then "-inf" else "inf"
  | .finite s 0 _ => if s then "-0.0" else "0.0"
  | .finite s m e => (if s then "-" else "") ++ (shortest m e).text layout

end GraphShapes.Binary
