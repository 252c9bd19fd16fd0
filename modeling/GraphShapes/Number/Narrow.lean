/-
GraphShapes.Number.Narrow — floating-point formats of a byte or less.

Such a format spends its few patterns on finite numbers: it has no infinite
ones, and one or two patterns, or none, that are no number. Otherwise a
pattern is read like one of a wider format.
-/
import GraphShapes.Number.Binary

namespace GraphShapes.Binary

/-- A format without infinite numbers. -/
structure Narrow where
  /-- Bits of a fraction. -/
  fractionBits : Nat
  /-- Bits of a stored exponent. -/
  exponentBits : Nat
  /-- The exponent of the least positive number. -/
  leastExponent : Int
  /-- The patterns that are no number. -/
  nans : List Nat
  deriving DecidableEq, Repr, Inhabited

namespace Narrow

/-- Four bits of exponent and three of fraction. -/
def four : Narrow := ⟨3, 4, -9, [0x7f, 0xff]⟩

/-- Four bits of exponent and three of fraction, with one zero. -/
def fourUnsignedZero : Narrow := ⟨3, 4, -10, [0x80]⟩

/-- Five bits of exponent and two of fraction, with one zero. -/
def fiveUnsignedZero : Narrow := ⟨2, 5, -17, [0x80]⟩

/-- Two bits of exponent and one of fraction. -/
def two : Narrow := ⟨1, 2, -1, []⟩

/-- The number that a pattern stands for. -/
def ofBits (f : Narrow) (bits : Nat) : Binary :=
  if f.nans.contains bits then .nan bits
  else
    let full := 2 ^ f.fractionBits
    let fraction := bits % full
    let stored := bits / full % 2 ^ f.exponentBits
    let negative := bits / full / 2 ^ f.exponentBits % 2 == 1
    if stored = 0 then ofParts negative fraction f.leastExponent
    else ofParts negative (full + fraction) (stored - 1 + f.leastExponent)

end Narrow

/-- Five bits of exponent and two of fraction, with infinite numbers. -/
def quarter : Format := ⟨3, -16, 16⟩

/-- The power of two that a byte stands for. -/
def powerOfBits (bits : Nat) : Binary :=
  if bits = 0xff then .nan 0 else .finite false 1 (bits - 127)

end GraphShapes.Binary
