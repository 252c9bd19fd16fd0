/-
GraphShapes.Json.Reader — the value of a document.

Tokens are read one by one. What is open around the place where the reader
stands is a stack of frames, innermost first; what may follow is the state.
Every token leads to a new state or to the error of that state, so reading is
one fold over the tokens.

A key that is given twice keeps its first position and takes the last value.
Containers nest as deep as there is room for; the bracket that would go deeper
ends the reading, whatever follows it. How much room there is depends on where
the reader is called from and not on the text (`Nesting`).
-/
import GraphShapes.Json.Token

namespace GraphShapes.Json

/-- How many containers may be open at one place: as many as the stack of whoever
calls the reader has room for, and that is one at least. -/
class Nesting where
  room : Nat
  room_pos : 0 < room

/-- What a command has left of a thousand frames when it reads a document. -/
instance (priority := low) : Nesting := ⟨975, by decide⟩

/-- A container that waits for a value. -/
inductive Frame where
  /-- The items so far, last first. -/
  | list (items : List Datum)
  /-- The fields so far and the key of the value to come. -/
  | fields (entries : List (Points × Datum)) (key : Points)
  deriving Repr, Inhabited

/-- What may follow. -/
inductive State where
  /-- A value must follow. -/
  | value (frames : List Frame)
  /-- The first item of a list, or its end. -/
  | firstItem (outer : List Frame)
  /-- The first key of a container, or its end. -/
  | firstKey (outer : List Frame)
  /-- A key must follow. -/
  | key (entries : List (Points × Datum)) (outer : List Frame)
  /-- The colon behind a key. -/
  | colon (entries : List (Points × Datum)) (key : Points) (outer : List Frame)
  /-- A comma or the end of a list. -/
  | afterItem (items : List Datum) (outer : List Frame)
  /-- A comma or the end of a keyed container. -/
  | afterField (entries : List (Points × Datum)) (outer : List Frame)
  /-- The document is complete. -/
  | done (d : Datum)
  deriving Repr, Inhabited

namespace State

/-- A value is complete. -/
def complete (d : Datum) : List Frame → State
  | [] => .done d
  | .list items :: outer => .afterItem (d :: items) outer
  | .fields entries k :: outer => .afterField (putField entries k d) outer

/-- A list is complete. -/
def completeList (items : List Datum) (outer : List Frame) : State :=
  complete (.list items.reverse) outer

/-- A keyed container is complete. -/
def completeFields (entries : List (Points × Datum)) (outer : List Frame) : State :=
  complete (.dict (entries.map fun (k, v) => (.ofPoints k, v))) outer

/-- What is missing where the state gets a token that it has no use for. -/
def missing : State → Problem
  | value _ => .value
  | firstItem _ => .value
  | firstKey _ => .key
  | key _ _ => .key
  | colon _ _ _ => .colon
  | afterItem _ _ => .comma
  | afterField _ _ => .comma
  | done _ => .extraData

/-- Why a token cannot be taken. -/
inductive Rejection where
  /-- A problem at a distance from the token's start. -/
  | problem (p : Problem) (distance : Nat)
  | overlong
  | tooDeep
  deriving Repr

variable [Nesting]

/-- A container that opens inside others. -/
def enter (frames : List Frame) (s : State) : Except Rejection State :=
  if frames.length < Nesting.room then .ok s else .error .tooDeep

/-- A token in the place of a value. -/
def takeValue (frames : List Frame) : Token → Except Rejection State
  | .openList => enter frames (.firstItem frames)
  | .openFields => enter frames (.firstKey frames)
  | .text p => .ok (complete (.ofPoints p) frames)
  | .literal d => .ok (complete d frames)
  | .overlong => .error .overlong
  | .broken p distance => .error (.problem p distance)
  | _ => .error (.problem .value 0)

/-- A token in the place of a key. -/
def takeKey (entries : List (Points × Datum)) (outer : List Frame) :
    Token → Except Rejection State
  | .text p => .ok (.colon entries p outer)
  | .broken p distance => .error (.problem p distance)
  | _ => .error (.problem .key 0)

/-- The state behind a token. -/
def next : State → Token → Except Rejection State
  | .value frames, t => takeValue frames t
  | .firstItem outer, .closeList => .ok (completeList [] outer)
  | .firstItem outer, t => takeValue (.list [] :: outer) t
  | .firstKey outer, .closeFields => .ok (completeFields [] outer)
  | .firstKey outer, t => takeKey [] outer t
  | .key entries outer, t => takeKey entries outer t
  | .colon entries k outer, .colon => .ok (.value (.fields entries k :: outer))
  | .afterItem items outer, .comma => .ok (.value (.list items :: outer))
  | .afterItem items outer, .closeList => .ok (completeList items outer)
  | .afterField entries outer, .comma => .ok (.key entries outer)
  | .afterField entries outer, .closeFields => .ok (completeFields entries outer)
  | s, _ => .error (.problem s.missing 0)

end State

/-- Why reading stopped. -/
inductive Stop where
  /-- A problem at an offset. -/
  | problem (p : Problem) (offset : Nat)
  | overlong
  | tooDeep
  deriving Repr

/-- A rejection of the token at an offset. -/
def Stop.ofRejection (offset : Nat) : State.Rejection → Stop
  | .problem p distance => .problem p (offset + distance)
  | .overlong => .overlong
  | .tooDeep => .tooDeep

variable [Nesting]

/-- The value of a row of tokens that ends at an offset. -/
def readTokens (endOffset : Nat) : State → List Placed → Except Stop Datum
  | .done d, [] => .ok d
  | s, [] => .error (.problem s.missing endOffset)
  | s, t :: rest =>
    match s.next t.token with
    | .ok s => readTokens endOffset s rest
    | .error r => .error (.ofRejection t.offset r)

/-- The value of a text. -/
def readChars (cs : List Char) : Except Stop Datum :=
  if cs.head? = some '\ufeff' then .error (.problem .byteOrderMark 0)
  else readTokens cs.length (.value []) (scan 0 0 cs)

/-- The value of a document. -/
def read (s : String) : Except Failure Datum :=
  match readChars s.toList with
  | .ok d => .ok d
  | .error .overlong => .error .overlong
  | .error .tooDeep => .error .tooDeep
  | .error (.problem p offset) => .error (.malformed (Error.within s.toList p offset))

end GraphShapes.Json
