/-
GraphShapes.Name — names of values.

A name is nearly always a text. A document may also use a number, a truth
value or null as a name, and a caller anything whose parts are such. Two
spellings are one name when they are the same text or bytes, equal as numbers,
or equal part by part. Truth values count as zero and one, and a NaN is the
same only as one with its payload. `key` sends every spelling to the one that
stands for its name, and all look-ups compare keys. A name keeps its own
spelling for messages and reports. A span of time is no name.
-/
import GraphShapes.Datum

namespace GraphShapes

mutual

/-- A spelling of a value's name. -/
inductive Name where
  | null
  | bool (b : Bool)
  | int (n : Int)
  | float (x : Binary)
  | text (s : String)
  /-- A text in which half a surrogate pair stands alone. -/
  | ragged (p : Points)
  | bytes (bs : List UInt8)
  /-- A whole number taken out of an array. -/
  | elementInt (n : Int)
  /-- A truth value taken out of an array. -/
  | elementBool (b : Bool)
  /-- A floating-point number taken out of an array. -/
  | elementFloat (x : Binary)
  | tuple (parts : Names)
  /-- Stands for a tensor of given sizes. -/
  | placeholder (sizes : Names)
  deriving DecidableEq, Repr, Inhabited

/-- Names in a row. -/
inductive Names where
  | nil
  | cons (first : Name) (rest : Names)
  deriving DecidableEq, Repr, Inhabited

end

namespace Name

/-- The key of a number. -/
def numberKey (x : Binary) : Name :=
  match x.toInt? with
  | some n => .int n
  | none => .float x

mutual

/-- The spelling that stands for all spellings of the same name. -/
def key : Name → Name
  | .bool b => .int b.toInt
  | .float x => numberKey x
  | .elementInt n => .int n
  | .elementBool b => .int b.toInt
  | .elementFloat x => numberKey x
  | .tuple parts => .tuple (keys parts)
  | .placeholder sizes => .placeholder (keys sizes)
  | .null => .null
  | .int n => .int n
  | .text s => .text s
  | .ragged p => .ragged p
  | .bytes bs => .bytes bs

/-- The keys of names in a row. -/
def keys : Names → Names
  | .nil => .nil
  | .cons name rest => .cons (key name) (keys rest)

end

@[simp] theorem key_text (s : String) : (Name.text s).key = .text s := by simp only [key]

/-- Are the spellings of one name? -/
def same (a b : Name) : Bool := a.key == b.key

@[simp] theorem same_iff {a b : Name} : a.same b = true ↔ a.key = b.key := by
  simp [same]

mutual

/-- The name that a value spells, if it can be one. -/
def ofDatum? : Datum → Option Name
  | .null => some .null
  | .bool b => some (.bool b)
  | .int n => some (.int n)
  | .float x => some (.float x)
  | .text s => some (.text s)
  | .ragged p => some (.ragged p)
  | .bytes bs => some (.bytes bs)
  | .elementInt n => some (.elementInt n)
  | .elementBool b => some (.elementBool b)
  | .elementFloat x => some (.elementFloat x)
  | .tuple items => (ofData? items).map .tuple
  | .placeholder sizes => (ofData? sizes).map .placeholder
  | _ => none

/-- The names that values spell, if all can be names. -/
def ofData? : List Datum → Option Names
  | [] => some .nil
  | d :: rest =>
    match ofDatum? d, ofData? rest with
    | some name, some names => some (.cons name names)
    | _, _ => none

end

mutual

/-- A name as a value. -/
def toDatum : Name → Datum
  | .null => .null
  | .bool b => .bool b
  | .int n => .int n
  | .float x => .float x
  | .text s => .text s
  | .ragged p => .ragged p
  | .bytes bs => .bytes bs
  | .elementInt n => .elementInt n
  | .elementBool b => .elementBool b
  | .elementFloat x => .elementFloat x
  | .tuple parts => .tuple (toData parts)
  | .placeholder sizes => .placeholder (toData sizes)

/-- Names as values. -/
def toData : Names → List Datum
  | .nil => []
  | .cons name rest => toDatum name :: toData rest

end

mutual

theorem ofDatum?_toDatum (name : Name) : ofDatum? name.toDatum = some name := by
  cases name with
  | tuple parts => simp only [toDatum, ofDatum?, ofData?_toData parts, Option.map_some]
  | placeholder sizes => simp only [toDatum, ofDatum?, ofData?_toData sizes, Option.map_some]
  | _ => simp only [toDatum, ofDatum?]

theorem ofData?_toData (names : Names) : ofData? (toData names) = some names := by
  cases names with
  | nil => simp only [toData, ofData?]
  | cons name rest => simp only [toData, ofData?, ofDatum?_toDatum name, ofData?_toData rest]

end

/-- A name in a message. -/
def display (name : Name) : Points := name.toDatum.display

/-- The name that code points spell. -/
def ofPoints (p : Points) : Name :=
  match p.toString? with
  | some s => .text s
  | none => .ragged p

@[simp] theorem ofPoints_ofString (s : String) : ofPoints (Points.ofString s) = .text s := by
  simp [ofPoints]

/-- Has the name a text? -/
def isWritable (name : Name) : Bool := name.toDatum.isWritable

/-- Is a name among the names? -/
def isAmong (name : Name) (ns : List Name) : Bool := ns.any (·.same name)

end Name

/-- The entry of a name in a list of named entries, if it has one. -/
def lookup? {α : Type} (entries : List (Name × α)) (name : Name) : Option α :=
  (entries.find? fun (n, _) => n.same name).map (·.2)

/-- Puts an entry under a name: in place of the one it has, or at the end. -/
def putEntry {α : Type} (entries : List (Name × α)) (name : Name) (a : α) : List (Name × α) :=
  if entries.any fun (n, _) => n.same name then
    entries.map fun (n, old) => if n.same name then (n, a) else (n, old)
  else entries ++ [(name, a)]

/-- Puts an entry under a name as `putEntry` does, in the spelling given now. -/
def respellEntry {α : Type} (entries : List (Name × α)) (name : Name) (a : α) :
    List (Name × α) :=
  (putEntry entries name a).map fun (n, b) => (if n.same name then name else n, b)

@[simp] theorem lookup?_nil {α : Type} (name : Name) : lookup? ([] : List (Name × α)) name = none :=
  rfl

theorem lookup?_cons {α : Type} (n : Name) (a : α) (rest : List (Name × α)) (name : Name) :
    lookup? ((n, a) :: rest) name = if n.same name then some a else lookup? rest name := by
  simp only [lookup?, List.find?_cons]
  by_cases h : n.same name = true <;> simp [h]

end GraphShapes
