/-
GraphShapes.Fault — why something failed.

Every failure is a cause. An inference error is a defect of one node or of the
inputs; a validation error is a defect of the graph or of the file it came
from; a consistency error says that a walk met a value too early, too late or
twice. Codes and texts are functions of the cause.

A text may have to show an integer that is too long to write. Then the cause
cannot be told, and `Fault.settled` leaves only that a value was bad.
-/
import GraphShapes.Json.Error
import GraphShapes.Misuse
import GraphShapes.Name
import GraphShapes.Shape.Defect

namespace GraphShapes

open Decimal (render renderList)

/-- What a node gets wrong. -/
inductive NodeDefect where
  | unsupported
  | shape (d : Shape.Defect)
  /-- Too few or too many inputs; without a greatest count there is no upper bound. -/
  | arity (least : Nat) (greatest : Option Nat) (given : Nat)
  | notTensor (operand code : String) (found : Meta)
  | notInteger (operand code : String) (found : Meta)
  | notIntegers (operand code : String) (found : Meta)
  | operandKind (found : Meta)
  | twoScalars
  | negativeExponent (exponent : Int)
  | missingAttribute (name : String)
  | attributeNotInt (name kind : String)
  | attributeNotInts (name : String)
  | attributeNotTensor (name : String)
  | operandRank (wanted operand : String) (rank : Nat)
  | indicesRank (rank : Nat)
  | outputCount (produced declared : Nat)
  deriving DecidableEq, Repr, Inhabited

namespace NodeDefect

/-- The code of a defect. -/
def code : NodeDefect → String
  | unsupported => "EUNSUPPORTED_OP"
  | shape d => d.code
  | arity _ _ _ => "EARITY"
  | notTensor _ code _ => code
  | notInteger _ code _ => code
  | notIntegers _ code _ => code
  | operandKind _ => "EBINARY_ARG"
  | twoScalars => "EBINARY_ARG"
  | negativeExponent _ => "EBINARY_ARG"
  | missingAttribute _ => "EATTR"
  | attributeNotInt _ _ => "EATTR"
  | attributeNotInts _ => "EATTR"
  | attributeNotTensor _ => "EATTR"
  | operandRank _ _ _ => "EEMBED_RANK"
  | indicesRank _ => "EEMBED_RANK"
  | outputCount _ _ => "EOUTPUT_COUNT"

/-- How many inputs an operator takes. -/
def arityWords (least : Nat) : Option Nat → String
  | none => "at least " ++ render least
  | some greatest =>
    if least = greatest then render least else render least ++ " to " ++ render greatest

/-- What follows the operator's tag in the text of a defect. -/
def body : NodeDefect → String
  | unsupported => " is not supported"
  | shape d => ": " ++ d.body
  | arity least greatest given =>
    ": expected " ++ arityWords least greatest ++ " inputs, got " ++ render given
  | notTensor operand _ found =>
    ": expected " ++ operand ++ " to be a tensor, got " ++ found.describe
  | notInteger operand _ found => ": expected int for " ++ operand ++ ", got " ++ found.describe
  | notIntegers operand _ found =>
    ": expected int[] for " ++ operand ++ ", got " ++ found.describe
  | operandKind found => ": expected tensor or scalar operands, got " ++ found.describe
  | twoScalars => ": expected tensor operands, got two scalars"
  | negativeExponent exponent =>
    ": negative exponent " ++ render exponent ++ " does not produce an integer"
  | missingAttribute name => " is missing attribute '" ++ name ++ "'"
  | attributeNotInt name kind => " attribute '" ++ name ++ "' must be int, got " ++ kind
  | attributeNotInts name => " attribute '" ++ name ++ "' must be list[int]"
  | attributeNotTensor name => " attribute '" ++ name ++ "' must be a tensor"
  | operandRank wanted operand rank =>
    ": expected " ++ wanted ++ " " ++ operand ++ ", got rank " ++ render rank
  | indicesRank rank => ": only 1D and 2D indices are supported, got rank " ++ render rank
  | outputCount produced declared =>
    ": produced " ++ render produced ++ " results for " ++ render declared
      ++ " declared outputs"

/-- What precedes the operator's tag in the text of a defect. -/
def lead : NodeDefect → String
  | unsupported => "Node's operator "
  | _ => ""

/-- The text of a defect of a node with a tag. -/
def message (tag : Points) (d : NodeDefect) : Points := d.lead ++ tag ++ d.body

/-- Has every integer of the defect's text a text? -/
def isWritable : NodeDefect → Bool
  | shape d => d.isWritable
  | notTensor _ _ found => found.isWritable
  | notInteger _ _ found => found.isWritable
  | notIntegers _ _ found => found.isWritable
  | operandKind found => found.isWritable
  | negativeExponent exponent => Decimal.isWritable exponent
  | _ => true

end NodeDefect

/-- Why a node has no result: a defect of the node, or a misuse that does not
name it. -/
inductive Refusal where
  | defect (d : NodeDefect)
  | misuse (m : Misuse)
  deriving DecidableEq, Repr, Inhabited

/-- A defect of one node or of the inputs of a run. -/
inductive InferenceError where
  | node (tag : Datum) (d : NodeDefect)
  | inputCount (declared given : Nat)
  | inputKind (kind : String)
  | inputText (text : String)
  | undeclaredInput (name : Name)
  deriving Repr, Inhabited

namespace InferenceError

/-- The code of an error. -/
def code : InferenceError → String
  | node _ d => d.code
  | inputCount _ _ => "EINPUT_COUNT"
  | inputKind _ => "EINPUT_TYPE"
  | inputText _ => "EINPUT_TYPE"
  | undeclaredInput _ => "EINPUT_TYPE"

/-- The tag of the node at fault. -/
def tag? : InferenceError → Option Datum
  | node tag _ => some tag
  | _ => none

/-- The text of an error. -/
def message : InferenceError → Points
  | node tag d => d.message tag.display
  | inputCount declared given =>
    "Number of inputs mismatch between graph (" ++ render declared ++ ") and actual inputs ("
      ++ render given ++ ")"
  | inputKind kind => "Input type " ++ kind ++ " is not supported"
  | inputText text => "Cannot parse input description '" ++ text ++ "'"
  | undeclaredInput name =>
    "Graph input '" ++ name.display
      ++ "' has no declared tensor shape; pass it explicitly"

/-- Has every integer of the text a text? -/
def isWritable : InferenceError → Bool
  | node tag d => tag.isWritable && d.isWritable
  | undeclaredInput name => name.isWritable
  | _ => true

end InferenceError

/-- A defect of a graph or of the file it came from. -/
inductive ValidationError where
  | manyProducers (name : Name) (later earlier : Nat)
  | undeclaredNodeInput (node : Nat) (name : Name)
  | undeclaredNodeOutput (node : Nat) (name : Name)
  | undeclaredGraphInput (name : Name)
  | undeclaredGraphOutput (name : Name)
  | producedInput (name : Name) (producer : Nat)
  | cycle
  | notJson (e : Json.Error)
  | notObject
  | missingOperator (node : Nat)
  | tensorWithoutSizes
  | unknownFormat (suffix known : String)
  | uncopiedZeros (node : Nat) (label : Name) (target : List Int) (data : Name)
  deriving DecidableEq, Repr, Inhabited

namespace ValidationError

/-- The code of an error. -/
def code : ValidationError → String
  | manyProducers _ _ _ => "EDUP_PRODUCER"
  | undeclaredNodeInput _ _ => "EINPUT_MISSING"
  | undeclaredNodeOutput _ _ => "EOUTPUT_MISSING"
  | undeclaredGraphInput _ => "EGRAPH_INPUT"
  | undeclaredGraphOutput _ => "EGRAPH_OUTPUT"
  | producedInput _ _ => "EDUP_PRODUCER"
  | cycle => "ECYCLE"
  | notJson _ => "EPARSE"
  | notObject => "EPARSE"
  | missingOperator _ => "EPARSE"
  | tensorWithoutSizes => "EPARSE"
  | unknownFormat _ _ => "EFORMAT"
  | uncopiedZeros _ _ _ _ => "ERESHAPE_ZERO"

/-- The index of the node at fault. -/
def node? : ValidationError → Option Nat
  | manyProducers _ later _ => some later
  | undeclaredNodeInput node _ => some node
  | undeclaredNodeOutput node _ => some node
  | producedInput _ producer => some producer
  | missingOperator node => some node
  | uncopiedZeros node _ _ _ => some node
  | _ => none

/-- The text of an error. -/
def message : ValidationError → Points
  | manyProducers name later earlier =>
    "Multiple producers for value '" ++ name.display ++ "' at node " ++ render later ++ " and "
      ++ render earlier
  | undeclaredNodeInput node name =>
    "Node " ++ render node ++ " input '" ++ name.display ++ "' not declared"
  | undeclaredNodeOutput node name =>
    "Node " ++ render node ++ " output '" ++ name.display ++ "' not declared"
  | undeclaredGraphInput name => "Graph input '" ++ name.display ++ "' not declared"
  | undeclaredGraphOutput name => "Graph output '" ++ name.display ++ "' not declared"
  | producedInput name producer =>
    "Graph input '" ++ name.display ++ "' is also produced by node " ++ render producer
  | cycle => "Cycle detected in graph"
  | notJson e => "Invalid graph JSON: " ++ e.message
  | notObject => "Graph document must be an object"
  | missingOperator node => "Node " ++ render node ++ " is missing 'op'"
  | tensorWithoutSizes => "Tensor attribute needs a 'shape' list"
  | unknownFormat suffix known =>
    "No parser for '" ++ suffix ++ "' files (known: " ++ known ++ ")"
  | uncopiedZeros _ label target data =>
    "Reshape '" ++ label.display ++ "': shape " ++ renderList target
      ++ " copies input dims but the shape of '" ++ data.display ++ "' is not declared"

/-- Has every integer of the text a text? -/
def isWritable : ValidationError → Bool
  | manyProducers name _ _ => name.isWritable
  | undeclaredNodeInput _ name => name.isWritable
  | undeclaredNodeOutput _ name => name.isWritable
  | undeclaredGraphInput name => name.isWritable
  | undeclaredGraphOutput name => name.isWritable
  | producedInput name _ => name.isWritable
  | uncopiedZeros _ _ target _ => target.all Decimal.isWritable
  | _ => true

end ValidationError

/-- A value met too early, too late or twice. -/
inductive ConsistencyError where
  | assignedTwice (name : Name)
  | notYetProduced (tag : String) (name : Name)
  | outputWithoutShape (name : Name)
  deriving DecidableEq, Repr, Inhabited

namespace ConsistencyError

/-- The text of an error. -/
def message : ConsistencyError → Points
  | assignedTwice name => "Value '" ++ name.display ++ "' is assigned more than once"
  | notYetProduced tag name =>
    tag ++ " consumes '" ++ name.display ++ "' before it is produced"
  | outputWithoutShape name => "Graph output '" ++ name.display ++ "' has no shape"

/-- Has every integer of the text a text? -/
def isWritable : ConsistencyError → Bool
  | assignedTwice name => name.isWritable
  | notYetProduced _ name => name.isWritable
  | outputWithoutShape name => name.isWritable

end ConsistencyError

/-- Why something failed. -/
inductive Fault where
  | inference (e : InferenceError)
  | validation (e : ValidationError)
  | consistency (e : ConsistencyError)
  /-- The output shapes of an engine that has not completed a run. -/
  | notCompleted
  /-- A source that is neither a document, a text nor a path. -/
  | unsupportedSource
  /-- A model that is neither a model, bytes nor a path. -/
  | unsupportedModel
  /-- An object address with another scheme. -/
  | badAddress
  | componentMissing (kind name : String)
  | misuse (m : Misuse)
  deriving Repr, Inhabited

namespace Fault

/-- Has every integer of the fault's text a text? -/
def isWritable : Fault → Bool
  | inference e => e.isWritable
  | validation e => e.isWritable
  | consistency e => e.isWritable
  | _ => true

/-- The fault as it can be told: one whose text would have to show too long an
integer is a bad value and nothing more. -/
def settled (f : Fault) : Fault := if f.isWritable then f else .misuse .badValue

/-- A result whose misuse is a fault. -/
def ofMisuse {α : Type} (r : Except Misuse α) : Except Fault α := r.mapError .misuse

/-- A result whose validation error is a fault. -/
def ofValidation {α : Type} (r : Except ValidationError α) : Except Fault α :=
  r.mapError fun e => (Fault.validation e).settled

/-- What comes of an operation on shapes on behalf of an operator. -/
def ofShape {α : Type} (tag : Datum) (r : Except Shape.Defect α) : Except Fault α :=
  r.mapError fun d => (Fault.inference (.node tag (.shape d))).settled

/-- A defect whose text would have to show too long an integer is a bad value. -/
theorem settled_node {tag : Datum} {d : NodeDefect} (h : d.isWritable = false) :
    (inference (.node tag d)).settled = .misuse .badValue := by
  simp [settled, isWritable, InferenceError.isWritable, h]

theorem ofShape_eq_badValue {α : Type} {tag : Datum} {r : Except Shape.Defect α}
    {d : Shape.Defect} (hr : r = .error d) (hd : d.isWritable = false) :
    ofShape tag r = .error (.misuse .badValue) := by
  subst hr
  exact congrArg Except.error (settled_node hd)

/-- The text of a fault, if it has one. -/
def message? : Fault → Option Points
  | inference e => some e.message
  | validation e => some e.message
  | consistency e => some e.message
  | notCompleted => some "run() has not completed"
  | unsupportedSource => some "Unsupported source type for JSON graph parser"
  | unsupportedModel => some "Unsupported model type for ONNX parser"
  | badAddress => some "s3_uri must start with s3://"
  | componentMissing kind name => some ("Component not found: " ++ kind ++ ":" ++ name)
  | misuse _ => none

end Fault

/-- A node's refusal as a fault that names the node. -/
def Refusal.toFault (tag : Datum) : Refusal → Fault
  | defect d => .inference (.node tag d)
  | misuse m => .misuse m

end GraphShapes
