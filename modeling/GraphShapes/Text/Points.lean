/-
GraphShapes.Text.Points — text by code points.

A document may write one half of a surrogate pair without the other. Such a
half is no character, so a text that holds one is kept as its code points.
Messages are kept that way too, since they show names. What is left of such a
text where only characters can go is up to the place: `toString?` refuses the
halves, `escaped` writes them by number.
-/
namespace GraphShapes

/-- Text by code points, in which half a surrogate pair may stand alone. -/
structure Points where
  codes : List Nat
  deriving DecidableEq, Repr, Inhabited

namespace Points

/-- Is a code point half a surrogate pair? -/
def isHalf (n : Nat) : Bool := 0xd800 ≤ n && n ≤ 0xdfff

/-- The code points of a text. -/
def ofString (s : String) : Points := ⟨s.toList.map Char.toNat⟩

instance : Coe String Points := ⟨ofString⟩

instance : Append Points := ⟨fun a b => ⟨a.codes ++ b.codes⟩⟩

@[simp] theorem codes_append (a b : Points) : (a ++ b).codes = a.codes ++ b.codes := rfl

@[simp] theorem codes_ofString (s : String) : (ofString s).codes = s.toList.map Char.toNat := rfl

theorem ofString_append (s t : String) : ofString (s ++ t) = ofString s ++ ofString t := by
  simp only [ofString, String.toList_append, List.map_append]
  rfl

/-- Parts with a separator between them. -/
def join (separator : Points) : List Points → Points
  | [] => ⟨[]⟩
  | [p] => p
  | p :: rest => p ++ separator ++ join separator rest

/-- Is every code point a character? -/
def isWhole (p : Points) : Bool := p.codes.all (!isHalf ·)

/-- The text, if no half stands alone in it. -/
def toString? (p : Points) : Option String :=
  if p.isWhole then some (String.ofList (p.codes.map Char.ofNat)) else none

theorem isHalf_toNat (c : Char) : isHalf c.toNat = false := by
  have h := c.valid
  simp only [UInt32.isValidChar, Nat.isValidChar] at h
  simp only [isHalf, Char.toNat, Bool.and_eq_false_iff, decide_eq_false_iff_not]
  omega

theorem isWhole_ofString (s : String) : (ofString s).isWhole = true := by
  simp [isWhole, isHalf_toNat]

@[simp] theorem toString?_ofString (s : String) : (ofString s).toString? = some s := by
  have chars : ((s.toList.map Char.toNat).map Char.ofNat) = s.toList := by
    simp [List.map_map, Function.comp_def]
  simp only [toString?, isWhole_ofString, if_true]
  rw [codes_ofString, chars, String.ofList_toList]

/-- The character of a code point; a half has its number behind a backslash. -/
def escapedCode (n : Nat) : List Char :=
  if isHalf n then '\\' :: 'u' :: Nat.toDigits 16 n else [Char.ofNat n]

/-- The text with every half written by number. -/
def escaped (p : Points) : String := String.ofList (p.codes.flatMap escapedCode)

end Points

end GraphShapes
