/-
GraphShapes.Element.Record — element types made of several.

A spelling with commas asks for a record: its parts are spellings of their
own, each with the number or the sizes of its repeats in front, and the fields
are numbered. A spelling without commas but with repeats asks for an array of
its type in place of every element. For a type whose length is left open a
number of repeats is the length.
-/
import GraphShapes.Element.Spelling
import GraphShapes.Text.Blank
import GraphShapes.Text.Grid
import GraphShapes.Text.Quoted

namespace GraphShapes.Element

/-- What stands in front of a part. -/
inductive Repeats where
  | count (n : Nat)
  | sizes (ns : List Nat)
  deriving DecidableEq, Repr, Inhabited

/-- A part of a spelling. -/
structure Part where
  spelling : List Char
  repeats : Option Repeats
  deriving Repr, Inhabited

/-- A type and the sizes of the array of it that stands for one element. -/
structure Repeated where
  spelled : Spelled
  sizes : List Nat := []

namespace Repeats

/-- Without the blanks at either end. -/
def trim (cs : List Char) : List Char := Text.strip (· = ' ') cs

/-- The fields between commas. -/
def fields : List Char → List (List Char)
  | [] => [[]]
  | c :: rest =>
    if c = ',' then [] :: fields rest
    else
      match fields rest with
      | [] => [[c]]
      | first :: others => (c :: first) :: others

/-- A number, which begins with zero only if it is zero. -/
def number? (cs : List Char) : Option Nat :=
  let cs := trim cs
  if cs.all Char.isDigit && !cs.isEmpty && (cs.head? ≠ some '0' || cs.all (· = '0')) then
    some (Decimal.ofDigits (cs.map fun c => c.toNat - 48))
  else none

/-- Numbers between commas; one comma may follow the last of them. -/
def numbers? (cs : List Char) : Option (List Nat) :=
  let parts := fields cs
  let parts := if parts.length > 1 && parts.getLast?.any (trim · == []) then parts.dropLast
    else parts
  parts.mapM number?

/-- Repeats without parentheses: several numbers, or one behind which a comma
stands, are sizes. -/
def bare? (cs : List Char) : Option Repeats := do
  match ← numbers? cs with
  | [n] => return if cs.contains ',' then .sizes [n] else .count n
  | ns => return .sizes ns

/-- Repeats between parentheses, given what follows the first of them. -/
def closed? (cs : List Char) : Option Repeats :=
  if cs.getLast? = some ')' then
    let inner := cs.dropLast
    if (trim inner).isEmpty then some (.sizes []) else bare? inner
  else none

/-- The repeats that a text writes, if it writes any. -/
def read (cs : List Char) : Except Misuse (Option Repeats) :=
  if cs.isEmpty then .ok none
  else
    let repeats := match trim cs with
      | '(' :: inner => closed? inner
      | cs => bare? cs
    match repeats with
    | some r => .ok (some r)
    | none => .error .badLiteral

end Repeats

namespace Part

/-- May a character stand among repeats? -/
def isCounting (c : Char) : Bool := c = ' ' || c = ',' || c.isDigit

/-- What a text begins with as far as a character may be repeated, and the rest. -/
def span (p : Char → Bool) (cs : List Char) : List Char × List Char :=
  (cs.takeWhile p, cs.dropWhile p)

/-- A character of a class at the head of a text, if there is one, and the rest. -/
def one (p : Char → Bool) : List Char → List Char × List Char
  | c :: cs => if p c then ([c], cs) else ([], c :: cs)
  | [] => ([], [])

/-- Is the character a mark of a byte order? -/
def isMark (c : Char) : Bool := c = '<' || c = '>' || c = '|' || c = '='

/-- The text of the repeats, and the rest. -/
def splitRepeats (cs : List Char) : List Char × List Char :=
  let (blanks, cs) := span (· = ' ') cs
  let (opening, cs) := one (· = '(') cs
  let (inner, cs) := span isCounting cs
  let (closing, cs) := one (· = ')') cs
  let (after, cs) := span (· = ' ') cs
  (blanks ++ opening ++ inner ++ closing ++ after, cs)

/-- A unit in brackets, if one follows, and the rest. -/
def splitUnit : List Char → List Char × List Char
  | '[' :: cs =>
    let (inner, rest) := span (fun c => c.isAlphanum || c = ',' || c = '.') cs
    match rest with
    | ']' :: rest => ('[' :: inner ++ [']'], rest)
    | _ => ([], '[' :: cs)
  | cs => ([], cs)

/-- The text of a code or name, and the rest. -/
def splitCode (cs : List Char) : List Char × List Char :=
  let (word, cs) := span (fun c => c.isAlphanum || c = '.' || c = '?') cs
  let (unit, cs) := splitUnit cs
  (word ++ unit, cs)

/-- A mark with the native ones made equal. -/
def plainMark (mark : List Char) : List Char := if mark = ['='] then ['<'] else mark

/-- The mark of a part that may have one on either side of its repeats. -/
def joinMarks (first second : List Char) : Except Misuse (List Char) :=
  if second.isEmpty then .ok first
  else if first.isEmpty then .ok second
  else if plainMark first = plainMark second then .ok (plainMark first)
  else .error .badValue

/-- The part that a text begins with. -/
def make (first repeats second code : List Char) : Except Misuse Part := do
  let mark ← joinMarks first second
  let mark := if mark = ['>'] then mark else []
  return ⟨mark ++ code, ← Repeats.read repeats⟩

/-- Does nothing but blanks follow, or else a comma with blanks around it, and
what follows the comma? -/
def behindComma? (cs : List Char) : Option (Option (List Char)) :=
  match cs.dropWhile Text.isBlank with
  | [] => some none
  | ',' :: rest => some (some (rest.dropWhile Text.isBlank))
  | _ => none

/-- The parts of a text, and whether commas stand between them. Every turn
takes a comma. -/
def readAll : (turns : Nat) → List Char → Except Misuse (List Part × Bool)
  | 0, _ => .ok ([], true)
  | _ + 1, [] => .ok ([], true)
  | turns + 1, cs =>
    let (first, cs) := one isMark cs
    let (repeats, cs) := splitRepeats cs
    let (second, cs) := one isMark cs
    let (code, cs) := splitCode cs
    match behindComma? cs with
    | none => .error .badValue
    | some none => do return ([← make first repeats second code], false)
    | some (some rest) => do
      let part ← make first repeats second code
      return (part :: (← readAll turns rest).1, true)

/-- A type with a number of repeats or with sizes. -/
def repeated (s : Spelled) : Option Repeats → Except Misuse Repeated
  | none => .ok ⟨s, []⟩
  | some r =>
    match s.sized, r with
    | some sized, .count n =>
      .ok ⟨if n = 0 then s else Spelled.ofSized (sized n).1 (sized n).2, []⟩
    | some _, .sizes _ => .error .badValue
    | none, .count n => sizedBy s [n]
    | none, .sizes ns => sizedBy s ns
where
  /-- An array of a type in place of an element. -/
  sizedBy (s : Spelled) (ns : List Nat) : Except Misuse Repeated :=
    if ns.length ≤ 64 && s.size * Text.Grid.count ns ≤ Spelled.maxSize
        && ns.all (· ≤ Spelled.maxSize) then .ok ⟨s, ns⟩
    else .error .badValue

/-- The type of a part. -/
def type (p : Part) : Except Misuse Repeated := do
  repeated (← Spelled.ofChars p.spelling) p.repeats

end Part

namespace Repeated

/-- Bytes that the type takes as a field of a record. -/
def size (r : Repeated) : Nat := r.spelled.size * Text.Grid.count r.sizes

/-- The field of a record under a name in quotes. -/
def fieldText (name : String) (r : Repeated) : String :=
  let sizes := if r.sizes.isEmpty then "" else ", " ++ Text.Grid.sizesText r.sizes
  "(" ++ name ++ ", " ++ r.spelled.field ++ sizes ++ ")"

/-- A record of named fields. -/
def record (fields : List (String × Repeated)) : Element :=
  ⟨"[" ++ ", ".intercalate (fields.map fun (name, r) => fieldText (Text.quoted name) r) ++ "]",
    (fields.map (·.2.size)).foldl (· + ·) 0⟩

/-- A record of numbered fields. -/
def numbered (rs : List Repeated) : Element :=
  record (rs.zipIdx.map fun (r, i) => ("f" ++ Decimal.render i, r))

end Repeated

/-- Does a comma stand outside all brackets? -/
def hasComma : (depth : Int) → List Char → Bool
  | _, [] => false
  | depth, c :: rest =>
    if c = ',' && depth == 0 then true
    else hasComma (if c = '[' then depth + 1 else if c = ']' then depth - 1 else depth) rest

/-- Does a text begin with a number or with empty parentheses? -/
def beginsRepeats : List Char → Bool
  | '(' :: ')' :: _ => true
  | c :: _ => c.isDigit
  | [] => false

/-- Does a spelling have parts or repeats? -/
def isCompound (cs : List Char) : Bool :=
  beginsRepeats cs || hasComma 0 (cs.drop 1)
    || match cs with
      | c :: rest => Part.isMark c && beginsRepeats rest
      | [] => false

/-- A last part without a spelling is left out. -/
def dropEmptyEnd (parts : List Part) : List Part :=
  match parts.getLast? with
  | some ⟨[], none⟩ => parts.dropLast
  | _ => parts

/-- The type that parts ask for. -/
def ofParts : List Part × Bool → Except Misuse Repeated
  | ([p], false) => p.type
  | (parts, _) => do
    let types ← (dropEmptyEnd parts).mapM Part.type
    if types.isEmpty then .error .wrongKind
    let e := Repeated.numbered types
    return ⟨Spelled.ofSized e e.name, []⟩

/-- The type that a spelling asks for. -/
def ofSpelling (s : String) : Except Misuse Repeated :=
  let cs := s.toList
  if isCompound cs then do ofParts (← Part.readAll (cs.length + 1) cs)
  else do return ⟨← Spelled.ofChars cs, []⟩

end GraphShapes.Element
