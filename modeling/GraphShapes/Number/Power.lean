/-
GraphShapes.Number.Power — powers of integers.

Bounds and formats are written with powers. They are the core ones, also where
an algebraic library is imported that offers powers of its own: a definition
is the same term whatever else its module sees.
-/
namespace GraphShapes

-- By default as well, since a literal exponent does not say of which type it is.
@[default_instance 20000]
scoped instance (priority := 1100) corePower {α : Type} [NatPow α] : Pow α Nat := instPowNat

end GraphShapes
