/-
GraphShapes.Inference.Store — the write-once store of a run.

A store holds what is known of values, in the order in which it was learnt. A
name is written at most once. Writing is a step that may stop: `Progress` is
the store that a step leaves, whether it went through or not, with the fault
that stopped it and the lines it wrote to the log.
-/
import GraphShapes.Fault
import GraphShapes.Log

namespace GraphShapes

/-- What is known of values, in the order in which it was learnt. -/
abbrev Store := List (Name × Meta)

/-- The store that a step leaves, and why it stopped if it did. -/
structure Progress where
  store : Store
  fault : Option Fault := none
  log : List Log.Record := []
  deriving Repr, Inhabited

namespace Progress

/-- A step that stops before it changes anything. -/
def stopped (s : Store) (f : Fault) : Progress := { store := s, fault := some f.settled }

/-- The next step, unless the first one stopped. -/
def andThen (p : Progress) (next : Store → Progress) : Progress :=
  match p.fault with
  | some _ => p
  | none =>
    let q := next p.store
    { q with log := p.log ++ q.log }

@[simp] theorem andThen_of_fault {p : Progress} {f : Fault} (h : p.fault = some f)
    (next : Store → Progress) : p.andThen next = p := by
  simp [andThen, h]

@[simp] theorem store_andThen {p : Progress} (h : p.fault = none) (next : Store → Progress) :
    (p.andThen next).store = (next p.store).store := by
  simp [andThen, h]

@[simp] theorem fault_andThen {p : Progress} (h : p.fault = none) (next : Store → Progress) :
    (p.andThen next).fault = (next p.store).fault := by
  simp [andThen, h]

end Progress

namespace Store

/-- The logger of a run. -/
def logger : String := Log.fullName "infer.engine"

/-- Writes one entry. The description of the value, led by the reason for
writing it, is logged first, so a value too long to describe is not written. -/
def write (lead : String) (s : Store) (name : Name) (m : Meta) : Progress :=
  if m.isWritable then
    let line : Log.Record :=
      ⟨.debug, logger, lead ++ name.display ++ " = " ++ m.describe⟩
    match lookup? s name with
    | some _ => { Progress.stopped s (.consistency (.assignedTwice name)) with log := [line] }
    | none => { store := s ++ [(name, m)], log := [line] }
  else Progress.stopped s (.misuse .badValue)

/-- Writes entries in order until one cannot be written. -/
def writeAll (lead : String) : Store → List (Name × Meta) → Progress
  | s, [] => { store := s }
  | s, (name, m) :: rest => (write lead s name m).andThen fun s => writeAll lead s rest

end Store

end GraphShapes
