/-
GraphShapes.Registry — components by kind and name.

A component is registered under the text `kind:name` and found under it again;
whoever registers under the same text later replaces it. A listing goes by the
kind that a component was registered with.
-/
import GraphShapes.Fault

namespace GraphShapes

/-- A component with the kind and name it was registered with. -/
structure Component (α : Type) where
  kind : String
  name : String
  content : α
  deriving Repr

/-- Components by key, in the order in which the keys were first used. -/
structure Registry (α : Type) where
  entries : List (String × Component α) := []
  deriving Repr, Inhabited

namespace Registry

variable {α : Type}

/-- The key of a kind and a name. -/
def key (kind name : String) : String := kind ++ ":" ++ name

/-- Registers a component. -/
def register (r : Registry α) (kind name : String) (content : α) : Registry α :=
  ⟨putField r.entries (key kind name) ⟨kind, name, content⟩⟩

/-- The component under a kind and a name. -/
def get? (r : Registry α) (kind name : String) : Option (Component α) :=
  r.entries.lookup (key kind name)

/-- What is registered under a kind and a name. -/
def create (r : Registry α) (kind name : String) : Except Fault α :=
  match r.get? kind name with
  | some c => .ok c.content
  | none => .error (.componentMissing kind name)

/-- The names of a kind in the order of their code points. -/
def names (r : Registry α) (kind : String) : List String :=
  ((r.entries.map (·.2)).filter (·.kind == kind)).map (·.name) |>.mergeSort

end Registry

end GraphShapes
