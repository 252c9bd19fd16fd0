/-
GraphShapes.Number.Binary — binary floating-point numbers.

A finite number is a sign, a mantissa and a power of two, kept in lowest form
(an odd mantissa, or zero with exponent zero), so that equal numbers of equal
sign are equal terms. `ofQuotient` rounds an exact quotient to the nearest
number of a format, a tie going to the even mantissa; the format says how many
bits a mantissa has, the least exponent, and where the infinite begins.
-/
import GraphShapes.Number.Power

namespace GraphShapes

/-- A binary floating-point number. -/
inductive Binary where
  /-- What is not a number, with a payload that tells one such from another. -/
  | nan (payload : Nat)
  | infinite (negative : Bool)
  | finite (negative : Bool) (mantissa : Nat) (exponent : Int)
  deriving DecidableEq, Repr, Inhabited

namespace Binary

/-- What numbers a floating-point format has. -/
structure Format where
  /-- Bits of a full mantissa. -/
  precision : Nat
  /-- The exponent of the least positive number. -/
  leastExponent : Int
  /-- Every number is below two to this power. -/
  ceiling : Int
  deriving DecidableEq, Repr

/-- The sixty-four bit format. -/
def double : Format := ⟨53, -1074, 1024⟩

/-- The thirty-two bit format. -/
def single : Format := ⟨24, -149, 128⟩

/-- The sixteen bit format with a five bit exponent. -/
def half : Format := ⟨11, -24, 16⟩

/-- The sixteen bit format with an eight bit exponent. -/
def brain : Format := ⟨8, -133, 128⟩

/-- Halves an even mantissa as often as it goes; `fuel` bounds the halvings. -/
def reduce : Nat → Nat → Int → Nat × Int
  | 0, m, e => (m, e)
  | fuel + 1, m, e => if m % 2 = 0 then reduce fuel (m / 2) (e + 1) else (m, e)

/-- The number of a mantissa and an exponent, in lowest form. -/
def ofParts (negative : Bool) (m : Nat) (e : Int) : Binary :=
  if m = 0 then .finite negative 0 0
  else
    let (m', e') := reduce m.log2 m e
    .finite negative m' e'

/-- The nearest integer to a quotient, a tie going to the even one. -/
def roundQuotient (num den : Nat) : Nat :=
  let q := num / den
  let r := num % den
  if 2 * r < den then q
  else if den < 2 * r then q + 1
  else if q % 2 = 0 then q else q + 1

/-- The nearest integer to `num / den / 2 ^ e`. -/
def roundScaled (num den : Nat) (e : Int) : Nat :=
  match e with
  | .ofNat k => roundQuotient num (den * 2 ^ k)
  | .negSucc k => roundQuotient (num * 2 ^ (k + 1)) den

/-- Is `num / den` at least two to the power `e`? -/
def reaches (num den : Nat) (e : Int) : Bool :=
  match e with
  | .ofNat k => den * 2 ^ k ≤ num
  | .negSucc k => den ≤ num * 2 ^ (k + 1)

/-- The number of a format nearest to `num / den`. -/
def ofQuotient (f : Format) (negative : Bool) (num den : Nat) : Binary :=
  if num = 0 then .finite negative 0 0
  else
    let guess : Int := (num.log2 : Int) - (den.log2 : Int)
    let scale := if reaches num den guess then guess else guess - 1
    let e := max (scale + 1 - f.precision) f.leastExponent
    let m := roundScaled num den e
    if reaches m 1 (f.ceiling - e) then .infinite negative else ofParts negative m e

/-- The number of a format nearest to `digits * 10 ^ power`. The count of
digits settles the far ends without forming the power. -/
def ofDecimal (f : Format) (negative : Bool) (digits : Nat) (power : Int) : Binary :=
  if digits = 0 then .finite negative 0 0
  else
    let size := ((Nat.toDigits 10 digits).length : Int) + power
    if 400 < size then .infinite negative
    else if size < -400 then .finite negative 0 0
    else
      match power with
      | .ofNat k => ofQuotient f negative (digits * 10 ^ k) 1
      | .negSucc k => ofQuotient f negative digits (10 ^ (k + 1))

/-- The number that digits write. -/
def ofDigitChars (cs : List Char) : Nat :=
  cs.foldl (fun n c => 10 * n + (c.toNat - 48)) 0

/-- The number of digits before and after the point and an exponent, in sixty-four bits. -/
def assemble (negative : Bool) (whole fraction : List Char) (exponent : Int) : Binary :=
  ofDecimal double negative (ofDigitChars (whole ++ fraction)) (exponent - fraction.length)

/-- A magnitude cut off at the point. -/
def wholePart (m : Nat) : Int → Nat
  | .ofNat k => m * 2 ^ k
  | .negSucc k => m / 2 ^ (k + 1)

/-- A finite number cut off at the point. -/
def truncate? : Binary → Option Int
  | .finite true m e => some (-(wholePart m e : Int))
  | .finite false m e => some (wholePart m e)
  | _ => none

/-- The integer that a number is, if it is one. In lowest form a number is
whole exactly when its exponent is not negative. -/
def toInt? : Binary → Option Int
  | .finite true m (.ofNat k) => some (-((m * 2 ^ k : Nat) : Int))
  | .finite false m (.ofNat k) => some ((m * 2 ^ k : Nat) : Int)
  | _ => none

/-- The stored exponent that is kept for numbers that are not finite. -/
def Format.reserved (f : Format) : Nat := (f.ceiling - f.precision - f.leastExponent + 2).toNat

/-- The number that a pattern of bits stands for: from the low end a fraction,
a stored exponent and a sign. A stored exponent of zero leaves out the leading
bit of the mantissa. -/
def ofBits (f : Format) (bits : Nat) : Binary :=
  let full := 2 ^ (f.precision - 1)
  let fraction := bits % full
  let stored := bits / full % (f.reserved + 1)
  let negative := bits / full / (f.reserved + 1) % 2 == 1
  if stored = f.reserved then (if fraction = 0 then .infinite negative else .nan fraction)
  else if stored = 0 then ofParts negative fraction f.leastExponent
  else ofParts negative (full + fraction) (stored - 1 + f.leastExponent)

/-- Is the number zero, of either sign? -/
def isZero : Binary → Bool
  | .finite _ 0 _ => true
  | _ => false

/-- Is the number below zero? -/
def isNegative : Binary → Bool
  | .finite s m _ => s && m != 0
  | .infinite s => s
  | .nan _ => false

end Binary

end GraphShapes
