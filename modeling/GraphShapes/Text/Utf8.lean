/-
GraphShapes.Text.Utf8 — bytes as text.

A character is one to four bytes; the second byte of a sequence is confined so
that no character has two spellings, none is a surrogate and none lies beyond
the last code point. `decode?` refuses a text with any other byte in it,
`decodeLossy` leaves such bytes out.
-/
namespace GraphShapes.Text.Utf8

/-- The six payload bits of a continuation byte. -/
def tail? (b : UInt8) : Option Nat :=
  if 0x80 ≤ b && b ≤ 0xbf then some (b.toNat - 0x80) else none

/-- The payload of a sequence's second byte, confined by the first. -/
def second? (first b : UInt8) : Option Nat :=
  let least : UInt8 := if first = 0xe0 then 0xa0 else if first = 0xf0 then 0x90 else 0x80
  let greatest : UInt8 := if first = 0xed then 0x9f else if first = 0xf4 then 0x8f else 0xbf
  if least ≤ b && b ≤ greatest then some (b.toNat - 0x80) else none

/-- A character of two bytes. -/
def pair? (a b : UInt8) : Option Char := do
  let y ← second? a b
  if 0xc2 ≤ a && a ≤ 0xdf then some (Char.ofNat ((a.toNat - 0xc0) * 64 + y)) else none

/-- A character of three bytes. -/
def triple? (a b c : UInt8) : Option Char := do
  let y ← second? a b
  let z ← tail? c
  if 0xe0 ≤ a && a ≤ 0xef then some (Char.ofNat (((a.toNat - 0xe0) * 64 + y) * 64 + z))
  else none

/-- A character of four bytes. -/
def quadruple? (a b c d : UInt8) : Option Char := do
  let x ← second? a b
  let y ← tail? c
  let z ← tail? d
  if 0xf0 ≤ a && a ≤ 0xf4 then
    some (Char.ofNat ((((a.toNat - 0xf0) * 64 + x) * 64 + y) * 64 + z))
  else none

/-- The character that the bytes begin with and how many bytes it takes. -/
def first? : List UInt8 → Option (Char × Nat)
  | [] => none
  | a :: rest =>
    if a < 0x80 then some (Char.ofNat a.toNat, 1)
    else
      let two := match rest with
        | b :: _ => pair? a b
        | _ => none
      let three := match rest with
        | b :: c :: _ => triple? a b c
        | _ => none
      let four := match rest with
        | b :: c :: d :: _ => quadruple? a b c d
        | _ => none
      (two.map (·, 2)) <|> (three.map (·, 3)) <|> (four.map (·, 4))

/-- Characters of a byte list; `skip` bytes still belong to the last one. A
byte that begins no character ends the reading, unless `lossy` leaves it out. -/
def scan (lossy : Bool) : Nat → List UInt8 → Option (List Char)
  | _, [] => some []
  | skip + 1, _ :: rest => scan lossy skip rest
  | 0, b :: rest =>
    match first? (b :: rest) with
    | some (c, width) => (scan lossy (width - 1) rest).map (c :: ·)
    | none => if lossy then scan lossy 0 rest else none

/-- The text that bytes spell, if every byte belongs to a character. -/
def decode? (bs : List UInt8) : Option String := (scan false 0 bs).map String.ofList

/-- The text that bytes spell, less the bytes that belong to no character. -/
def decodeLossy (bs : List UInt8) : String := String.ofList ((scan true 0 bs).getD [])

/-- A continuation byte with six payload bits. -/
def tailByte (n : Nat) : UInt8 := UInt8.ofNat (0x80 + n % 64)

/-- The bytes of a character. -/
def encodeChar (c : Char) : List UInt8 :=
  let n := c.toNat
  if n < 0x80 then [UInt8.ofNat n]
  else if n < 0x800 then [UInt8.ofNat (0xc0 + n / 64), tailByte n]
  else if n < 0x10000 then [UInt8.ofNat (0xe0 + n / 4096), tailByte (n / 64), tailByte n]
  else
    [UInt8.ofNat (0xf0 + n / 262144), tailByte (n / 4096), tailByte (n / 64), tailByte n]

/-- The bytes of a text. -/
def encode (s : String) : List UInt8 := s.toList.flatMap encodeChar

end GraphShapes.Text.Utf8
