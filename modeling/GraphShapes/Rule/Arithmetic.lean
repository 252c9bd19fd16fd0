/-
GraphShapes.Rule.Arithmetic — constants, arithmetic and matrix products.

Two scalars are folded to the exact integer; a tensor and a scalar have the
tensor's shape; two tensors broadcast. A constant floating-point number counts
as the integer one, since its magnitude never feeds a shape.
-/
import GraphShapes.Log
import GraphShapes.Rule.Operand
import GraphShapes.Operator
import GraphShapes.Shape.Combine

namespace GraphShapes.Rule

/-- What the declared type of a constant says of it. -/
inductive ConstantKind where
  | float
  | integer
  | nothing
  | tensor
  | integers
  /-- The declared type is an array, which compares with no word as a whole. -/
  | incomparable
  | untracked (type : Datum)

/-- The kind of a constant of a declared type. -/
def ConstantKind.ofType : Datum → ConstantKind
  | .text "float" => .float
  | .text "int" => .integer
  | .text "bool" => .integer
  | .text "None" => .nothing
  | .text "Tensor" => .tensor
  | .text "int[]" => .integers
  | .array sizes e =>
    if Text.Grid.count sizes = 1 then .untracked (.array sizes e) else .incomparable
  | type => .untracked type

/-- The kind of constant that a node produces. -/
def constantKind (ctx : Context) : ConstantKind :=
  ConstantKind.ofType (ctx.outputTypes.headD (.text "Tensor"))

/-- A constant. -/
def constant (node : Node) (ctx : Context) : Answer := do
  match constantKind ctx with
  | .float => return [.scalar 1]
  | .integer => return [.scalar (← node.intAttribute "value")]
  | .nothing => return [.nothing]
  | .tensor => return [.tensor (← node.tensorAttribute "value")]
  | .integers => return [.ints (← node.intsAttribute "value")]
  | .incomparable => .error (.misuse .badValue)
  | .untracked _ => return [.nothing]

/-- An operation on each element. -/
def elementwise : List Meta → Answer
  | [m] => .ok [m]
  | metas => arity 1 (some 1) metas

/-- A power of an integer whose cube is itself: only the parity of a positive
exponent counts. -/
def cubicPower (x : Int) : Nat → Int
  | 0 => 1
  | n + 1 => if n % 2 = 0 then x else x * x

theorem cubicPower_eq {x : Int} (h : x * x * x = x) :
    ∀ n : Nat, cubicPower x n = x ^ n
  | 0 => by simp [cubicPower]
  | 1 => by rw [cubicPower, if_pos rfl, Int.pow_succ, Int.pow_zero, Int.one_mul]
  | 2 => by simp [cubicPower, Int.pow_succ]
  | n + 3 => by
    have ih := cubicPower_eq h (n + 1)
    have step : x ^ (n + 3) = x ^ (n + 1) := by
      simp only [Int.pow_succ]
      rw [Int.mul_assoc, Int.mul_assoc, ← Int.mul_assoc x x x, h]
    rw [step, ← ih]
    simp [cubicPower]

/-- A power, which is had without counting to the exponent when the base is
minus one, zero or one. -/
def power (x : Int) (n : Nat) : Int :=
  if x.natAbs ≤ 1 then cubicPower x n else x ^ n

theorem power_eq (x : Int) (n : Nat) : power x n = x ^ n := by
  unfold power
  split
  · have : x = -1 ∨ x = 0 ∨ x = 1 := by omega
    rcases this with rfl | rfl | rfl <;> exact cubicPower_eq (by decide) n
  · rfl

/-- The exact integer of two scalars. -/
def fold (op : Operator) (x y : Int) : Except Refusal Meta :=
  match op with
  | .add => .ok (.scalar (x + y))
  | .sub => .ok (.scalar (x - y))
  | .mul => .ok (.scalar (x * y))
  | .pow => if y < 0 then refuse (.negativeExponent y) else .ok (.scalar (power x y.toNat))
  | _ => refuse .twoScalars

/-- May a value be an operand of arithmetic? -/
def isArithmetic : Meta → Bool
  | .tensor _ => true
  | .scalar _ => true
  | _ => false

/-- Two operands of arithmetic. -/
def combine (op : Operator) : Meta → Meta → Except Refusal Meta
  | .tensor a, .tensor b => return .tensor (← shaped (Shape.broadcast a b))
  | .tensor a, .scalar _ => .ok (.tensor a)
  | .scalar _, .tensor b => .ok (.tensor b)
  | .scalar x, .scalar y => fold op x y
  | a, b => refuse (.operandKind (if isArithmetic a then b else a))

/-- Arithmetic; a third operand never affects the shape. -/
def binary (op : Operator) : List Meta → Answer
  | [a, b] => return [← combine op a b]
  | [a, b, _] => return [← combine op a b]
  | metas => arity 2 (some 3) metas

/-- A matrix product. -/
def matrixProduct : List Meta → Answer
  | [a, b] => do
    let a ← tensor "self" "EMM_RANK" a
    let b ← tensor "mat2" "EMM_RANK" b
    return [.tensor (← shaped (Shape.matmul a b))]
  | metas => arity 2 (some 2) metas

/-- A batch of matrix products. -/
def batchProduct : List Meta → Answer
  | [a, b] => do
    let a ← tensor "self" "EBMM_RANK" a
    let b ← tensor "mat2" "EBMM_RANK" b
    return [.tensor (← shaped (Shape.batchMatmul a b))]
  | metas => arity 2 (some 2) metas

/-- The product inside a fused multiply-add. -/
def innerProduct (a : Meta) : Meta → Except Refusal Meta
  | .scalar _ => .ok a
  | b => do
    let a ← tensor "mat1" "EMM_RANK" a
    let b ← tensor "mat2" "EMM_RANK" b
    return .tensor (← shaped (Shape.matmul a b))

/-- A fused multiply-add; what follows the third operand never affects the shape. -/
def multiplyAdd : List Meta → Answer
  | c :: a :: b :: _ => do return [← combine .addmm c (← innerProduct a b)]
  | metas => arity 3 none metas

end GraphShapes.Rule
