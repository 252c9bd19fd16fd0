/-
GraphShapes.Element.Spelling — by which spellings an element type is asked for.

A spelling is a name, a letter, or a letter with a size, with a mark for the
byte order in front; a control character counts as the letter at its place in
the row of the machine's types. Text, bytes and raw data have a length; where
it is left open an array takes the shortest there is.
-/
import GraphShapes.Element
import GraphShapes.Element.Moment

namespace GraphShapes.Element

/-- The order of bytes in a machine word. -/
inductive Order where
  | native
  | swapped
  deriving DecidableEq, Repr, Inhabited

/-- The mark of an order. -/
def Order.mark : Order → String
  | .native => "<"
  | .swapped => ">"

/-- What a spelling asks for. -/
structure Spelled where
  /-- The element type of an array. -/
  element : Element
  /-- The type as a field of a record. -/
  field : String
  /-- Bytes that the type takes as a field of a record. -/
  size : Nat := element.size
  /-- The type with a length, if its length is left open. -/
  sized : Option (Nat → Element × String) := none

namespace Spelled

/-- A type with a length as a spelled type. -/
def ofSized (element : Element) (field : String) : Spelled := { element, field }

/-- A type of numbers: its kind in letters, its code letter, and its bytes. A
single byte has no order. -/
def number (kind : String) (letter : Char) (order : Order) (size : Nat) : Spelled :=
  let code := letter.toString ++ Decimal.render size
  if size = 1 then ofSized ⟨kind ++ "8", 1⟩ ("'" ++ code ++ "'")
  else
    let name := match order with
      | .native => kind ++ Decimal.render (8 * size)
      | .swapped => order.mark ++ code
    ofSized ⟨name, size⟩ ("'" ++ order.mark ++ code ++ "'")

/-- Bytes of a length. -/
def bytes (n : Nat) : Element × String :=
  (⟨"|S" ++ Decimal.render n, n⟩, "'S" ++ Decimal.render n ++ "'")

/-- Text of a length; a character takes four bytes. -/
def text (order : Order) (n : Nat) : Element × String :=
  let name := order.mark ++ "U" ++ Decimal.render n
  (⟨name, 4 * n⟩, "'" ++ name ++ "'")

/-- Raw data of a length. -/
def raw (n : Nat) : Element × String :=
  (⟨"|V" ++ Decimal.render n, n⟩, "'V" ++ Decimal.render n ++ "'")

/-- A type of a length; the length zero leaves it open. -/
def lengthy (sized : Nat → Element × String) (shortest : Nat) (field : String) (n : Nat) :
    Spelled :=
  if n = 0 then { element := (sized shortest).1, field, size := 0, sized := some sized }
  else ofSized (sized n).1 (sized n).2

/-- Bytes of a length, or of any length. -/
def anyBytes (n : Nat) : Spelled := lengthy bytes 1 "'S'" n

/-- Text of a length, or of any length. -/
def anyText (order : Order) (n : Nat) : Spelled :=
  lengthy (text order) 1 ("'" ++ order.mark ++ "U'") n

/-- Raw data of a length, or of any length. -/
def anyRaw (n : Nat) : Spelled := lengthy raw 0 "'V'" n

/-- A type for times. -/
def moment (order : Order) (isSpan : Bool) (step : Moment.Step) : Spelled :=
  let code := order.mark ++ (if isSpan then "m8" else "M8") ++ step.text
  let name := match order with
    | .native => (if isSpan then "timedelta64" else "datetime64") ++ step.text
    | .swapped => code
  ofSized ⟨name, 8⟩ ("'" ++ code ++ "'")

/-! ## Letters -/

/-- The letters of the machine's types in a row. -/
def letters : List Char :=
  ['?', 'b', 'B', 'h', 'H', 'i', 'I', 'l', 'L', 'q', 'Q', 'f', 'd', 'g', 'F', 'D', 'G', 'O', 'S',
   'U', 'V', 'M', 'm', 'e']

/-- The type of a letter. -/
def ofLetter? (order : Order) (c : Char) : Option Spelled :=
  match (letters[c.toNat]?).getD c with
  | '?' => some (ofSized Element.bool "'?'")
  | 'b' => some (number "int" 'i' order 1)
  | 'B' => some (number "uint" 'u' order 1)
  | 'h' => some (number "int" 'i' order 2)
  | 'H' => some (number "uint" 'u' order 2)
  | 'i' => some (number "int" 'i' order 4)
  | 'I' => some (number "uint" 'u' order 4)
  | 'l' | 'q' | 'n' | 'p' => some (number "int" 'i' order 8)
  | 'L' | 'Q' | 'N' | 'P' => some (number "uint" 'u' order 8)
  | 'e' => some (number "float" 'f' order 2)
  | 'f' => some (number "float" 'f' order 4)
  | 'd' => some (number "float" 'f' order 8)
  | 'g' => some (number "float" 'f' order 16)
  | 'F' => some (number "complex" 'c' order 8)
  | 'D' => some (number "complex" 'c' order 16)
  | 'G' => some (number "complex" 'c' order 32)
  | 'O' => some (ofSized Element.object "'O'")
  | 'S' | 'a' => some (anyBytes 0)
  | 'c' => some (anyBytes 1)
  | 'U' => some (anyText order 0)
  | 'V' => some (anyRaw 0)
  | 'M' => some (moment order false ⟨1, ⟨""⟩⟩)
  | 'm' => some (moment order true ⟨1, ⟨""⟩⟩)
  | 'T' => some (ofSized ⟨"StringDType()", 16⟩ "'T'")
  | _ => none

/-- The greatest size behind a letter. -/
def maxSize : Nat := 2 ^ 31 - 1

/-- The type of a letter with a size. -/
def ofSizedLetter? (order : Order) (c : Char) (n : Nat) : Option Spelled :=
  match c with
  | 'S' | 'a' => some (anyBytes n)
  | 'U' => if n ≤ maxSize / 4 then some (anyText order n) else none
  | 'V' => some (anyRaw n)
  | 'b' => if n = 1 then ofLetter? order '?' else none
  | 'i' => if [1, 2, 4, 8].contains n then some (number "int" 'i' order n) else none
  | 'u' => if [1, 2, 4, 8].contains n then some (number "uint" 'u' order n) else none
  | 'f' => if [2, 4, 8, 16].contains n then some (number "float" 'f' order n) else none
  | 'c' => if [8, 16, 32].contains n then some (number "complex" 'c' order n) else none
  | 'O' => if [4, 8].contains n then ofLetter? order 'O' else none
  | 'M' => if n = 8 then ofLetter? order 'M' else none
  | 'm' => if n = 8 then ofLetter? order 'm' else none
  | _ => none

/-- The type of a letter alone or with a size. -/
def ofCode? (order : Order) : List Char → Option Spelled
  | [] => none
  | [c] => ofLetter? order c
  | c :: size =>
    match Decimal.leading? size with
    | some (.ofNat n, []) => if n ≤ maxSize then ofSizedLetter? order c n else none
    | _ => none

/-! ## Names -/

/-- Letters with the names of their types. -/
def names : List (Char × List String) :=
  [('?', ["bool", "bool_"]),
   ('b', ["int8", "byte"]), ('B', ["uint8", "ubyte"]),
   ('h', ["int16", "short"]), ('H', ["uint16", "ushort"]),
   ('i', ["int32", "intc"]), ('I', ["uint32", "uintc"]),
   ('l', ["int64", "int", "int_", "intp", "long", "longlong"]),
   ('L', ["uint64", "uint", "uintp", "ulong", "ulonglong"]),
   ('e', ["float16", "half"]), ('f', ["float32", "single"]),
   ('d', ["float64", "float", "double"]), ('g', ["float128", "longdouble"]),
   ('F', ["complex64", "csingle"]), ('D', ["complex128", "complex", "cdouble"]),
   ('G', ["complex256", "clongdouble"]),
   ('O', ["object", "object_"]), ('S', ["bytes", "bytes_"]),
   ('U', ["str", "str_", "unicode"]), ('V', ["void"])]

/-- The type of a name. -/
def ofName? (s : String) : Option Spelled :=
  match names.find? fun (_, ns) => ns.contains s with
  | some (c, _) => ofLetter? .native c
  | none => (narrow.find? (·.name == s)).map fun e => ofSized e e.name

/-- The order that a text begins with, and the text behind its mark. -/
def takeOrder : List Char → Order × List Char
  | '>' :: cs => (.swapped, cs)
  | '<' :: cs => (.native, cs)
  | '=' :: cs => (.native, cs)
  | '|' :: cs => (.native, cs)
  | cs => (.native, cs)

/-- The type that a spelling asks for, records aside. A name stands without a
mark. -/
def ofChars (cs : List Char) : Except Misuse Spelled :=
  let (order, body) := takeOrder cs
  match Moment.split? body with
  | some (isSpan, step) => (Moment.readStep step).map (moment order isSpan)
  | none =>
    match ofCode? order body <|> ofName? (String.ofList cs) with
    | some s => .ok s
    | none => .error .wrongKind

end Spelled

end GraphShapes.Element
