/-
GraphShapes.Rule.Operand — what a rule may ask of its operands.

A rule takes what is known of its operands and a context: whether offsets of
an embedding bag end with a sentinel, and the declared types of the node's
outputs. It either answers what is known of the outputs or refuses.
-/
import GraphShapes.Graph.Attribute

namespace GraphShapes

/-- What a rule knows besides its operands. -/
structure Context where
  /-- Offsets of embedding bags end with a sentinel. -/
  endOffset : Bool := true
  outputTypes : List Datum := []
  deriving Repr, Inhabited

namespace Rule

/-- What a rule answers. -/
abbrev Answer := Except Refusal (List Meta)

/-- Refuses with a defect of the node. -/
def refuse {α : Type} (d : NodeDefect) : Except Refusal α := .error (.defect d)

/-- A shape computation's answer on behalf of a node. -/
def shaped {α : Type} : Except Shape.Defect α → Except Refusal α
  | .ok a => .ok a
  | .error d => refuse (.shape d)

/-- The defect of a count of operands outside the bounds. -/
def arity {α : Type} (least : Nat) (greatest : Option Nat) (metas : List Meta) :
    Except Refusal α :=
  refuse (.arity least greatest metas.length)

/-- The sizes of an operand. -/
def tensor (operand code : String) : Meta → Except Refusal Shape
  | .tensor sizes => .ok sizes
  | found => refuse (.notTensor operand code found)

/-- The integer of an operand. -/
def scalar (operand code : String) : Meta → Except Refusal Int
  | .scalar n => .ok n
  | found => refuse (.notInteger operand code found)

/-- The integers of an operand. -/
def integers (operand code : String) : Meta → Except Refusal (List Int)
  | .ints ns => .ok ns
  | found => refuse (.notIntegers operand code found)

/-- The sizes of operands that are numbered from `i` on. -/
def tensors (code : String) : Nat → List Meta → Except Refusal (List Shape)
  | _, [] => .ok []
  | i, m :: rest => do
    let sizes ← tensor ("input " ++ Decimal.render i) code m
    return sizes :: (← tensors code (i + 1) rest)

/-- The integers of elements that are numbered from `i` on. -/
def elements (code : String) : Nat → List Meta → Except Refusal (List Int)
  | _, [] => .ok []
  | i, m :: rest => do
    let n ← scalar ("element " ++ Decimal.render i) code m
    return n :: (← elements code (i + 1) rest)

end Rule

end GraphShapes
