/-
GraphShapes.Operator — the operators that have a rule.

A node names its operator by a tag. The supported tags are a closed set; any
other value in the place of a tag, text or not, names no operator.
-/
import GraphShapes.Datum

namespace GraphShapes

/-- An operator with a rule. -/
inductive Operator where
  | constant
  | listConstruct
  | constantChunk
  | fusedConcat
  | fusedStack
  | tanh
  | relu
  | sigmoid
  | add
  | sub
  | mul
  | pow
  | mm
  | bmm
  | addmm
  | slice
  | reshape
  | permute
  | embeddingBag
  | embeddingBagRowwise
  deriving DecidableEq, Repr, Inhabited

namespace Operator

/-- Every operator. -/
def all : List Operator :=
  [constant, listConstruct, constantChunk, fusedConcat, fusedStack, tanh, relu, sigmoid, add,
   sub, mul, pow, mm, bmm, addmm, slice, reshape, permute, embeddingBag, embeddingBagRowwise]

/-- The tag by which a node names an operator. -/
def tag : Operator → String
  | constant => "prim::Constant"
  | listConstruct => "prim::ListConstruct"
  | constantChunk => "prim::ConstantChunk"
  | fusedConcat => "prim::FusedConcat"
  | fusedStack => "glow::fused_stack"
  | tanh => "aten::tanh"
  | relu => "aten::relu"
  | sigmoid => "aten::sigmoid"
  | add => "aten::add"
  | sub => "aten::sub"
  | mul => "aten::mul"
  | pow => "aten::pow"
  | mm => "aten::mm"
  | bmm => "aten::bmm"
  | addmm => "aten::addmm"
  | slice => "aten::slice"
  | reshape => "aten::reshape"
  | permute => "aten::permute"
  | embeddingBag => "aten::embedding_bag"
  | embeddingBagRowwise => "fb::embedding_bag_byte_rowwise_offsets"

/-- The operator of a registered set that a tag names. -/
def find? (registered : List Operator) : Datum → Option Operator
  | .text s => registered.find? (·.tag == s)
  | _ => none

/-- The operator that a tag names. -/
def ofTag? (d : Datum) : Option Operator := find? all d

theorem ofTag?_tag (op : Operator) : ofTag? (.text op.tag) = some op := by
  cases op <;> decide

theorem tag_of_ofTag? {d : Datum} {op : Operator} (h : ofTag? d = some op) :
    d = .text op.tag := by
  cases d with
  | text s =>
    have := List.find?_some h
    simp only [beq_iff_eq] at this
    rw [this]
  | _ => simp [ofTag?, find?] at h

/-- Does only the first output of the operator carry a shape? The other
outputs of an embedding bag are bookkeeping. -/
def firstOutputOnly : Operator → Bool
  | embeddingBag => true
  | _ => false

/-- The outputs of a node that the operator gives a shape to. -/
def tracked {α : Type} (op : Operator) (outputs : List α) : List α :=
  if op.firstOutputOnly then outputs.take 1 else outputs

end Operator

end GraphShapes
