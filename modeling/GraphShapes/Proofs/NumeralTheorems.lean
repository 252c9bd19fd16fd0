/-
GraphShapes.Proofs.NumeralTheorems — integers that are written and read back.

Reading an integer is lenient and writing one is plain, so of the many texts that are
read as an integer one is the text that it is written as. An integer that has a text is
read back from it (`readInt_render`), and so is a list of them from the texts with a
separator in between (`readInts_numerals`), provided that no separator can stand in
a numeral. Both sides stop at 4300 digits, and at the same integers: a magnitude below
the bound has at most as many digits as may be read.

What is written holds digits of the common script and a sign, and nothing else
(`isNumeral_of_mem_render`). That is all that the other lemmas need of it: neither a
blank nor a separator nor an underscore is among them.

  §1 Blanks   — text with blanks around it, and text without.
  §2 Digits   — natural numbers, read back from the digits of the library.
  §3 Integers — signs, and the bound.
  §4 Fields   — lists of integers, as splitting a list of characters.
-/
import GraphShapes.Input.Description
import GraphShapes.Proofs.ResultTheorems
import Mathlib.Data.List.TakeWhile

namespace GraphShapes

/-! ## §1 Blanks -/

namespace Text

variable {p : Char → Bool} {cs front back : List Char}

theorem strip_eq_self (h : ∀ c ∈ cs, p c = false) : strip p cs = cs := by
  have hdrop : ∀ {ds : List Char}, (∀ c ∈ ds, p c = false) → ds.dropWhile p = ds := by
    intro ds hds
    cases ds with
    | nil => rfl
    | cons c rest => rw [List.dropWhile_cons_of_neg (by simp [hds c List.mem_cons_self])]
  rw [strip, hdrop h, hdrop fun c hc => h c (List.mem_reverse.mp hc), List.reverse_reverse]

/-- Characters of the class at either end make no difference. -/
theorem strip_append (hfront : ∀ c ∈ front, p c = true) (hback : ∀ c ∈ back, p c = true) :
    strip p (front ++ cs ++ back) = strip p cs := by
  have hrear : back.reverse.dropWhile p = [] := by
    rw [List.dropWhile_eq_nil_iff]
    exact fun c hc => hback c (List.mem_reverse.mp hc)
  rw [strip, strip, List.append_assoc, List.dropWhile_append_of_pos hfront, List.dropWhile_append]
  split
  · next hempty =>
    rw [List.isEmpty_iff.mp hempty, List.dropWhile_eq_nil_iff.mpr hback]
  · rw [List.reverse_append, List.dropWhile_append, hrear]
    rfl

end Text

namespace Decimal

open Text

/-! ## §2 Digits -/

theorem toNat_of_isDigit {c : Char} (h : c.isDigit = true) : 48 ≤ c.toNat ∧ c.toNat ≤ 57 := by
  simp only [Char.isDigit, Bool.and_eq_true, decide_eq_true_eq, UInt32.le_iff_toNat_le] at h
  exact h

theorem digitValue?_of_isDigit {c : Char} (h : c.isDigit = true) :
    digitValue? c = some (c.toNat - 48) := by
  obtain ⟨hleast, hmost⟩ := toNat_of_isDigit h
  rw [digitValue?, zeros, List.find?_cons_of_pos (by simp [hleast, hmost]), Option.map_some]

/-- Digits of the common script are read one by one. -/
theorem readDigits_of_isDigit {cs : List Char} (hne : cs ≠ []) (h : ∀ c ∈ cs, c.isDigit = true) :
    readDigits cs = some (cs.map fun c => c.toNat - 48) := by
  fun_induction readDigits cs with
  | case1 => exact absurd rfl hne
  | case2 c =>
    rw [digitValue?_of_isDigit (h c List.mem_cons_self)]
    rfl
  | case3 c rest => exact absurd (h '_' (by simp)) (by decide)
  | case4 c rest hsingle _ ih =>
    rw [ih hsingle fun d hd => h d (List.mem_cons_of_mem c hd),
      digitValue?_of_isDigit (h c List.mem_cons_self)]
    rfl

theorem isDigit_toDigits (n : Nat) : ∀ c ∈ Nat.toDigits 10 n, c.isDigit = true :=
  fun _ hc => Nat.isDigit_of_mem_toDigits (by decide) (by decide) hc

/-- A number below the bound is read back from its digits. -/
theorem readNat_toDigits {n : Nat} (h : n < bound) : readNat (Nat.toDigits 10 n) = some n := by
  have hlength : (Nat.toDigits 10 n).length ≤ maxDigits := by
    unfold bound at h
    exact (Nat.length_toDigits_le_iff (by decide) (by decide)).mpr h
  rw [readNat, readDigits_of_isDigit Nat.toDigits_ne_nil (isDigit_toDigits n)]
  simp only [Option.bind_eq_bind, Option.bind_some, List.length_map, if_pos hlength, ofDigits,
    List.foldl_map, Option.some.injEq]
  exact Nat.ofDigitChars_ten_toDigits

/-! ## §3 Integers -/

theorem toList_render_ofNat (k : Nat) : (render (.ofNat k)).toList = Nat.toDigits 10 k :=
  Nat.toList_repr

theorem toList_render_negSucc (k : Nat) :
    (render (.negSucc k)).toList = '-' :: Nat.toDigits 10 (k + 1) := by
  change ("-" ++ (k + 1).repr).toList = _
  rw [String.toList_append, Nat.toList_repr]
  rfl

/-- A digit of the common script, or a sign. -/
def isNumeral (c : Char) : Bool := c.isDigit || c == '-'

theorem isNumeral_of_mem_render (n : Int) : ∀ c ∈ (render n).toList, isNumeral c = true := by
  have hdigit (k : Nat) : ∀ c ∈ Nat.toDigits 10 k, isNumeral c = true := by
    intro c hc
    rw [isNumeral, isDigit_toDigits k c hc, Bool.true_or]
  cases n with
  | ofNat k =>
    rw [toList_render_ofNat]
    exact hdigit k
  | negSucc k =>
    rw [toList_render_negSucc]
    exact List.forall_mem_cons.mpr ⟨by decide, hdigit (k + 1)⟩

theorem toList_render_ne_nil (n : Int) : (render n).toList ≠ [] := by
  cases n with
  | ofNat k =>
    rw [toList_render_ofNat]
    exact Nat.toDigits_ne_nil
  | negSucc k =>
    rw [toList_render_negSucc]
    exact List.cons_ne_nil _ _

/-- Any other character stands in no numeral. -/
theorem beq_eq_false_of_isNumeral {c other : Char} (h : isNumeral c = true)
    (hother : isNumeral other = false) : (c == other) = false := by
  rw [beq_eq_false_iff_ne]
  rintro rfl
  rw [h] at hother
  cases hother

theorem isBlank_of_isNumeral {c : Char} (h : isNumeral c = true) : isBlank c = false := by
  rw [isNumeral, Bool.or_eq_true, beq_iff_eq] at h
  rcases h with hdigit | rfl
  · obtain ⟨hleast, hmost⟩ := toNat_of_isDigit hdigit
    simp only [isBlank, Bool.or_eq_false_iff, Bool.and_eq_false_iff, decide_eq_false_iff_not,
      List.contains_eq_mem, List.mem_cons, List.not_mem_nil, or_false]
    omega
  · decide

/-- **Numerals.** An integer that has a text is read back from it. -/
theorem readInt_render {n : Int} (h : isWritable n = true) :
    readInt (render n).toList = some n := by
  have hbound : n.natAbs < bound := of_decide_eq_true h
  have hmargin : ∀ c ∈ (render n).toList, isMargin c = false := by
    intro c hc
    rw [isMargin, isBlank_of_isNumeral (isNumeral_of_mem_render n c hc), Bool.false_and]
  rw [readInt, strip_eq_self hmargin]
  cases n with
  | ofNat k =>
    have hread : readNat (Nat.toDigits 10 k) = some k := readNat_toDigits hbound
    rw [toList_render_ofNat]
    -- No digit is a sign, so the number is read as it stands.
    split
    · next rest hminus => exact absurd (isDigit_toDigits k '-' (by simp [hminus])) (by decide)
    · next rest hplus => exact absurd (isDigit_toDigits k '+' (by simp [hplus])) (by decide)
    · rw [hread]
      rfl
  | negSucc k =>
    have hread : readNat (Nat.toDigits 10 (k + 1)) = some (k + 1) := readNat_toDigits hbound
    rw [toList_render_negSucc]
    simp only [hread]
    rfl

/-- The texts of integers with a separator in between. -/
def numerals (separator : Char) (ns : List Int) : List Char :=
  [separator].intercalate (ns.map fun n => (render n).toList)

@[simp] theorem numerals_singleton (separator : Char) (n : Int) :
    numerals separator [n] = (render n).toList := by
  simp [numerals]

@[simp] theorem numerals_cons_cons (separator : Char) (n n' : Int) (ns : List Int) :
    numerals separator (n :: n' :: ns)
      = (render n).toList ++ separator :: numerals separator (n' :: ns) := by
  simp [numerals, List.intercalate_cons_cons]

theorem toList_intercalate_render {text : String} {separator : Char}
    (h : text.toList = [separator]) (ns : List Int) :
    (text.intercalate (ns.map render)).toList = numerals separator ns := by
  rw [String.toList_intercalate, h, List.map_map]
  rfl

/-- What holds of digits, signs and the separator holds of all characters. -/
theorem forall_mem_numerals {p : Char → Prop} {separator : Char} (hseparator : p separator)
    (hnumeral : ∀ c, isNumeral c = true → p c) (ns : List Int) :
    ∀ c ∈ numerals separator ns, p c := by
  have hrender (n : Int) : ∀ c ∈ (render n).toList, p c :=
    fun c hc => hnumeral c (isNumeral_of_mem_render n c hc)
  induction ns with
  | nil => exact nofun
  | cons n rest ih =>
    cases rest with
    | nil =>
      rw [numerals_singleton]
      exact hrender n
    | cons n' rest =>
      rw [numerals_cons_cons]
      exact List.forall_mem_append.mpr ⟨hrender n, List.forall_mem_cons.mpr ⟨hseparator, ih⟩⟩

/-- Numerals begin with a digit or a sign. -/
theorem exists_numerals_eq_cons (separator : Char) {ns : List Int} (h : ns ≠ []) :
    ∃ c cs, isNumeral c = true ∧ numerals separator ns = c :: cs := by
  obtain ⟨n, rest, rfl⟩ := List.exists_cons_of_ne_nil h
  obtain ⟨c, cs, hc⟩ := List.exists_cons_of_ne_nil (toList_render_ne_nil n)
  have hnumeral : isNumeral c = true := isNumeral_of_mem_render n c (hc ▸ List.mem_cons_self)
  cases rest with
  | nil => exact ⟨c, cs, hnumeral, by rw [numerals_singleton, hc]⟩
  | cons n' rest => exact ⟨c, _, hnumeral, by rw [numerals_cons_cons, hc, List.cons_append]⟩

theorem mapM_readInt_render {ns : List Int} (h : ∀ n ∈ ns, isWritable n = true) :
    ns.mapM (fun n => readInt (render n).toList) = some ns := by
  induction ns with
  | nil => rfl
  | cons n rest ih =>
    rw [List.forall_mem_cons] at h
    rw [List.mapM_cons, readInt_render h.1, ih h.2]
    rfl

end Decimal

/-! ## §4 Fields -/

namespace Input

open Decimal (render readInt)

theorem fields_eq_splitOnP (isSeparator : Char → Bool) (cs : List Char) :
    fields isSeparator cs = cs.splitOnP isSeparator := by
  induction cs with
  | nil => rfl
  | cons c rest ih =>
    rw [fields, List.splitOnP_cons_eq_if_modifyHead, ih]
    split
    · rfl
    · cases hrest : List.splitOnP isSeparator rest with
      | nil => exact absurd hrest (List.splitOnP_ne_nil isSeparator rest)
      | cons first others => rfl

variable {isSeparator : Char → Bool} {separator : Char} {parts : List (List Char)}

/-- Parts without separators are the fields of the text that holds them. -/
theorem fields_intercalate (hseparator : isSeparator separator = true)
    (hparts : ∀ part ∈ parts, ∀ c ∈ part, isSeparator c = false) (hne : parts ≠ []) :
    fields isSeparator ([separator].intercalate parts) = parts := by
  rw [fields_eq_splitOnP]
  induction parts with
  | nil => exact absurd rfl hne
  | cons part rest ih =>
    rw [List.forall_mem_cons] at hparts
    cases rest with
    | nil =>
      rw [List.intercalate_singleton]
      exact List.splitOnP_eq_singleton hparts.1
    | cons part' rest =>
      rw [List.intercalate_cons_cons, List.append_assoc, List.singleton_append,
        List.splitOnP_append_cons_of_forall_mem hparts.1 separator hseparator,
        ih hparts.2 (List.cons_ne_nil _ _)]

/-- **Lists of numerals.** Integers that have texts are read back from the texts with a
separator in between. -/
theorem readInts_numerals {ns : List Int} (hseparator : isSeparator separator = true)
    (hnumeral : ∀ c, Decimal.isNumeral c = true → isSeparator c = false) (hne : ns ≠ [])
    (h : ∀ n ∈ ns, Decimal.isWritable n = true) :
    readInts isSeparator (Decimal.numerals separator ns) = some ns := by
  have hparts : ∀ part ∈ ns.map fun n => (render n).toList, ∀ c ∈ part, isSeparator c = false := by
    intro part hpart c hc
    obtain ⟨n, _, rfl⟩ := List.mem_map.mp hpart
    exact hnumeral c (Decimal.isNumeral_of_mem_render n c hc)
  rw [readInts, Decimal.numerals, fields_intercalate hseparator hparts (by simpa using hne),
    List.mapM_map]
  exact Decimal.mapM_readInt_render h

end Input

end GraphShapes
