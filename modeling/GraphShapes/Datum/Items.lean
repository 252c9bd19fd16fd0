/-
GraphShapes.Datum.Items — what a value yields item by item.

A list or tuple yields its items, a text its characters, a keyed container its
keys, bytes their numbers, and an array the parts along its first axis: zeros
if it has no further axis. Nothing else can be gone through.
-/
import GraphShapes.Datum
import GraphShapes.Misuse

namespace GraphShapes.Datum

/-- The parts of an array along its first axis. -/
def rows (element : Element) : List Nat → Except Misuse (List Datum)
  | [] => .error .wrongKind
  | [n] => .ok (List.replicate n (.elementFloat (.finite false 0 0)))
  | n :: sizes => .ok (List.replicate n (.array sizes element))

/-- The items that a value yields. -/
def yields : Datum → Except Misuse (List Datum)
  | .list items => .ok items
  | .tuple items => .ok items
  | .text s => .ok (s.toList.map fun c => .text (String.singleton c))
  | .ragged p => .ok (p.codes.map fun n => ofPoints ⟨[n]⟩)
  | .dict entries => .ok (entries.map (·.1))
  | .bytes bs => .ok (bs.map fun b => .int b.toNat)
  | .array sizes element => rows element sizes
  | _ => .error .wrongKind

end GraphShapes.Datum
