/-
GraphShapes.Rule.Embedding — embedding bags.

An embedding bag takes eight operands: weight, indices, offsets, whether
gradients are scaled, mode, sparsity, sample weights, and whether the last
offset is included. Only the first three have a say in the shape. A bag is a
range of the indices that starts at an offset, or a row of two-dimensional
indices. A row of a quantised table ends with a scale and a zero offset of
four bytes each.
-/
import GraphShapes.Rule.Operand

namespace GraphShapes.Rule

/-- The number of operands of an embedding bag. -/
def embeddingArity : Nat := 8

/-- The bytes of a quantised row that hold its scale and zero offset. -/
def rowTrailer : Int := 8

/-- The width of the table. -/
def tableWidth (weight : Meta) : Except Refusal Int := do
  match ← tensor "weight" "EEMBED_ARG" weight with
  | [_, width] => return width
  | sizes => refuse (.operandRank "2D" "weight" sizes.length)

/-- The number of offsets. -/
def offsetCount (offsets : Meta) : Except Refusal Int := do
  match ← tensor "offsets" "EEMBED_ARG" offsets with
  | [n] => return n
  | sizes => refuse (.operandRank "1D" "offsets" sizes.length)

/-- The offsets that start no bag. -/
def sentinels (ctx : Context) : Int := if ctx.endOffset then 1 else 0

/-- The number of bags that offsets start. -/
def bagCount (ctx : Context) (offsets : Meta) : Except Refusal Int := do
  return (← offsetCount offsets) - sentinels ctx

/-- An embedding bag. -/
def embeddingBag (ctx : Context) : List Meta → Answer
  | [weight, indices, offsets, _, _, _, _, _] => do
    let width ← tableWidth weight
    let bags ←
      match ← tensor "indices" "EEMBED_ARG" indices with
      | [_] => bagCount ctx offsets
      | [rows, _] => pure rows
      | sizes => refuse (.indicesRank sizes.length)
    return [.tensor [bags, width]]
  | metas => arity embeddingArity (some embeddingArity) metas

/-- An embedding bag over a quantised table. -/
def embeddingBagRowwise (ctx : Context) : List Meta → Answer
  | [weight, _, offsets, _, _, _, _, _] => do
    let width ← tableWidth weight
    let bags ← bagCount ctx offsets
    return [.tensor [bags, width - rowTrailer]]
  | metas => arity embeddingArity (some embeddingArity) metas

end GraphShapes.Rule
