/-
GraphShapes.Proofs.EncodingTheorems — a text is read back from its bytes.

The bytes of a character begin with one that says how many there are, so the character is
found again whatever bytes follow (`first?_encodeChar`), and a text is, character by
character (`decode?_encode`). The bounds on second bytes are met: they leave out other
spellings of a character and the numbers that are no character, and nothing else.

  §1 Bytes      — the bytes behind the first, and what the first announces.
  §2 Characters — one lemma for each number of bytes.
  §3 Texts      — character by character.
-/
import GraphShapes.Text.Utf8
import Mathlib.Data.Option.Basic

namespace GraphShapes.Text.Utf8

variable {a : UInt8}

/-! ## §1 Bytes -/

theorem between_iff {low high : UInt8} :
    (low ≤ a && a ≤ high) = true ↔ low.toNat ≤ a.toNat ∧ a.toNat ≤ high.toNat := by
  simp only [Bool.and_eq_true, decide_eq_true_eq, UInt8.le_iff_toNat_le]

theorem toNat_tailByte (n : Nat) : (tailByte n).toNat = 0x80 + n % 64 := by
  rw [tailByte, UInt8.toNat_ofNat']
  omega

/-- A byte with six payload bits behind the first two. -/
theorem tail?_tailByte (n : Nat) : tail? (tailByte n) = some (n % 64) := by
  have hn := toNat_tailByte n
  rw [tail?, if_pos, hn, Nat.add_sub_cancel_left]
  simp only [between_iff, UInt8.reduceToNat]
  omega

/-- A second byte is confined behind four of the first bytes, and free behind others. -/
theorem second?_tailByte {n : Nat} (hthree : a.toNat = 0xe0 → 32 ≤ n % 64)
    (hfour : a.toNat = 0xf0 → 16 ≤ n % 64) (hhalf : a.toNat = 0xed → n % 64 < 32)
    (hlast : a.toNat = 0xf4 → n % 64 < 16) : second? a (tailByte n) = some (n % 64) := by
  have hn := toNat_tailByte n
  rw [second?, hn, Nat.add_sub_cancel_left, if_pos]
  simp only [Bool.and_eq_true, decide_eq_true_eq, UInt8.le_iff_toNat_le, ← UInt8.toNat_inj, hn]
  simp only [apply_ite UInt8.toNat, UInt8.reduceToNat]
  refine ⟨?_, ?_⟩
  · split
    · omega
    · split <;> omega
  · split
    · omega
    · split <;> omega

/-- A byte that announces two more begins no pair. -/
theorem pair?_eq_none (h : 0xe0 ≤ a.toNat) (b : UInt8) : pair? a b = none := by
  unfold pair?
  cases second? a b with
  | none => rfl
  | some y =>
    have hno : ¬ ((0xc2 ≤ a && a ≤ 0xdf) = true) := by
      simp only [between_iff, UInt8.reduceToNat]
      omega
    exact if_neg hno

/-- A byte that announces three more begins no triple. -/
theorem triple?_eq_none (h : 0xf0 ≤ a.toNat) (b c : UInt8) : triple? a b c = none := by
  unfold triple?
  cases second? a b with
  | none => rfl
  | some y =>
    cases tail? c with
    | none => rfl
    | some z =>
      have hno : ¬ ((0xe0 ≤ a && a ≤ 0xef) = true) := by
        simp only [between_iff, UInt8.reduceToNat]
        omega
      exact if_neg hno

/-! ## §2 Characters -/

variable {n : Nat}

theorem toNat_ofNat {k : Nat} (h : k < 256) : (UInt8.ofNat k).toNat = k := by
  rw [UInt8.toNat_ofNat', Nat.mod_eq_of_lt h]

theorem first?_single (h : n < 0x80) (rest : List UInt8) :
    first? (UInt8.ofNat n :: rest) = some (Char.ofNat n, 1) := by
  have ha : (UInt8.ofNat n).toNat = n := toNat_ofNat (by omega)
  have hlow : UInt8.ofNat n < 0x80 := by
    rwa [UInt8.lt_iff_toNat_lt, ha]
  simp only [first?, if_pos hlow, ha]

theorem first?_pair (hlow : 0x80 ≤ n) (hhigh : n < 0x800) (rest : List UInt8) :
    first? (UInt8.ofNat (0xc0 + n / 64) :: tailByte n :: rest) = some (Char.ofNat n, 2) := by
  have ha : (UInt8.ofNat (0xc0 + n / 64)).toNat = 0xc0 + n / 64 := toNat_ofNat (by omega)
  generalize UInt8.ofNat (0xc0 + n / 64) = a at ha
  have hfirst : ¬ a < 0x80 := by
    simp only [UInt8.lt_iff_toNat_lt, UInt8.reduceToNat]
    omega
  have hrange : (0xc2 ≤ a && a ≤ 0xdf) = true := by
    simp only [between_iff, UInt8.reduceToNat]
    omega
  have hcode : (a.toNat - 0xc0) * 64 + n % 64 = n := by omega
  have hpair : pair? a (tailByte n) = some (Char.ofNat n) := by
    rw [pair?, second?_tailByte (by omega) (by omega) (by omega) (by omega)]
    simp only [Option.bind_eq_bind, Option.bind_some, if_pos hrange, hcode]
  simp only [first?, if_neg hfirst, hpair]
  rfl

theorem first?_triple (hlow : 0x800 ≤ n) (hhigh : n < 0x10000)
    (hvalid : n < 0xd800 ∨ 0xdfff < n) (rest : List UInt8) :
    first? (UInt8.ofNat (0xe0 + n / 4096) :: tailByte (n / 64) :: tailByte n :: rest)
      = some (Char.ofNat n, 3) := by
  have ha : (UInt8.ofNat (0xe0 + n / 4096)).toNat = 0xe0 + n / 4096 := toNat_ofNat (by omega)
  generalize UInt8.ofNat (0xe0 + n / 4096) = a at ha
  have hfirst : ¬ a < 0x80 := by
    simp only [UInt8.lt_iff_toNat_lt, UInt8.reduceToNat]
    omega
  have hrange : (0xe0 ≤ a && a ≤ 0xef) = true := by
    simp only [between_iff, UInt8.reduceToNat]
    omega
  have hcode : ((a.toNat - 0xe0) * 64 + n / 64 % 64) * 64 + n % 64 = n := by omega
  have htriple : triple? a (tailByte (n / 64)) (tailByte n) = some (Char.ofNat n) := by
    rw [triple?, second?_tailByte (by omega) (by omega) (by omega) (by omega), tail?_tailByte]
    simp only [Option.bind_eq_bind, Option.bind_some, if_pos hrange, hcode]
  simp only [first?, if_neg hfirst, pair?_eq_none (a := a) (by omega), htriple]
  rfl

theorem first?_quadruple (hlow : 0x10000 ≤ n) (hhigh : n < 0x110000) (rest : List UInt8) :
    first? (UInt8.ofNat (0xf0 + n / 262144) :: tailByte (n / 4096) :: tailByte (n / 64)
        :: tailByte n :: rest)
      = some (Char.ofNat n, 4) := by
  have ha : (UInt8.ofNat (0xf0 + n / 262144)).toNat = 0xf0 + n / 262144 :=
    toNat_ofNat (by omega)
  generalize UInt8.ofNat (0xf0 + n / 262144) = a at ha
  have hfirst : ¬ a < 0x80 := by
    simp only [UInt8.lt_iff_toNat_lt, UInt8.reduceToNat]
    omega
  have hrange : (0xf0 ≤ a && a ≤ 0xf4) = true := by
    simp only [between_iff, UInt8.reduceToNat]
    omega
  have hcode : (((a.toNat - 0xf0) * 64 + n / 4096 % 64) * 64 + n / 64 % 64) * 64 + n % 64 = n := by
    omega
  have hquadruple : quadruple? a (tailByte (n / 4096)) (tailByte (n / 64)) (tailByte n)
      = some (Char.ofNat n) := by
    rw [quadruple?, second?_tailByte (by omega) (by omega) (by omega) (by omega), tail?_tailByte,
      tail?_tailByte]
    simp only [Option.bind_eq_bind, Option.bind_some, if_pos hrange, hcode]
  simp only [first?, if_neg hfirst, pair?_eq_none (a := a) (by omega),
    triple?_eq_none (a := a) (by omega), hquadruple]
  rfl

/-- **Characters.** The character that a text begins with is found again behind its bytes. -/
theorem first?_encodeChar (c : Char) (rest : List UInt8) :
    first? (encodeChar c ++ rest) = some (c, (encodeChar c).length) := by
  have hvalid : c.toNat < 0xd800 ∨ 0xdfff < c.toNat ∧ c.toNat < 0x110000 := c.valid
  have hc : Char.ofNat c.toNat = c := Char.ofNat_toNat c
  rw [encodeChar]
  split
  · next hone => exact (first?_single hone rest).trans (by rw [hc]; rfl)
  · next hone =>
    split
    · next htwo => exact (first?_pair (by omega) htwo rest).trans (by rw [hc]; rfl)
    · next htwo =>
      split
      · next hthree =>
        exact (first?_triple (by omega) hthree (by omega) rest).trans (by rw [hc]; rfl)
      · next hthree =>
        exact (first?_quadruple (by omega) (by omega) rest).trans (by rw [hc]; rfl)

/-! ## §3 Texts -/

theorem encodeChar_ne_nil (c : Char) : encodeChar c ≠ [] := by
  unfold encodeChar
  simp only
  repeat' split
  all_goals exact List.cons_ne_nil _ _

theorem scan_skip (lossy : Bool) (front rest : List UInt8) :
    scan lossy front.length (front ++ rest) = scan lossy 0 rest := by
  induction front with
  | nil => rfl
  | cons b front ih => exact ih

/-- **Texts.** The bytes of a text spell it. -/
theorem decode?_encode (s : String) : decode? (encode s) = some s := by
  have hscan (cs : List Char) : scan false 0 (cs.flatMap encodeChar) = some cs := by
    induction cs with
    | nil => rfl
    | cons c cs ih =>
      have hfirst := first?_encodeChar c (cs.flatMap encodeChar)
      rw [List.flatMap_cons]
      cases hbytes : encodeChar c with
      | nil => exact absurd hbytes (encodeChar_ne_nil c)
      | cons b tail =>
        rw [hbytes] at hfirst
        rw [List.cons_append, scan]
        rw [List.cons_append] at hfirst
        rw [hfirst]
        simp only [List.length_cons, Nat.add_sub_cancel, scan_skip, ih, Option.map_some]
  rw [decode?, encode, hscan, Option.map_some, String.ofList_toList]

end GraphShapes.Text.Utf8
