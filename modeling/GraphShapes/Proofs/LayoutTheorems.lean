/-
GraphShapes.Proofs.LayoutTheorems — the text of a document on a terminal.

A document is written in few characters: line feeds, and those of ASCII that show
(`isBasic_text`). Names may hold anything else, but whatever a key holds is written by
number. No control sequence begins without an escape character, so a text in such
characters is printed as it is (`line_ofString`), and nothing of a document is left out.

  §1 Characters — the characters of numbers and of quoted text.
  §2 Documents  — the characters of a document, by induction on the document.
  §3 Terminals  — lines that are printed as they are.
-/
import GraphShapes.Command.Terminal
import GraphShapes.Json.Writer
import GraphShapes.Proofs.NumeralTheorems
import Mathlib.Tactic.IntervalCases

namespace GraphShapes

/-! ## §1 Characters -/

/-- A line feed, or a character of ASCII that shows. -/
def Text.IsBasic (c : Char) : Prop := c = '\n' ∨ (0x20 ≤ c.toNat ∧ c.toNat ≤ 0x7e)

instance (c : Char) : Decidable (Text.IsBasic c) := inferInstanceAs (Decidable (_ ∨ _))

namespace Text

variable {c : Char}

theorem isBasic_digitChar {d : Nat} (h : d < 16) : IsBasic (Nat.digitChar d) := by
  interval_cases d <;> decide

/-- The digits of a number, by induction on how many there are. -/
theorem isBasic_toDigits {base : Nat} (hleast : 1 < base) (hmost : base ≤ 16) (n : Nat) :
    ∀ c ∈ Nat.toDigits base n, IsBasic c := by
  induction n using Nat.strong_induction_on with
  | _ n ih =>
    rw [Nat.toDigits_eq_if hleast]
    split
    · next hsmall =>
      exact List.forall_mem_singleton.mpr (isBasic_digitChar (hsmall.trans_le hmost))
    · next hlarge =>
      have hfewer : n / base < n := Nat.div_lt_self (by omega) hleast
      have hdigit : n % base < base := Nat.mod_lt n (by omega)
      exact List.forall_mem_append.mpr ⟨ih _ hfewer,
        List.forall_mem_singleton.mpr (isBasic_digitChar (hdigit.trans_le hmost))⟩

theorem isBasic_hex (width n : Nat) : ∀ c ∈ hex width n, IsBasic c := by
  refine List.forall_mem_append.mpr ⟨fun c hc => ?_, isBasic_toDigits (by decide) (by decide) n⟩
  rw [List.eq_of_mem_replicate hc]
  decide

theorem isBasic_render (n : Int) : ∀ c ∈ (Decimal.render n).toList, IsBasic c := by
  cases n with
  | ofNat k =>
    rw [Decimal.toList_render_ofNat]
    exact isBasic_toDigits (by decide) (by decide) k
  | negSucc k =>
    rw [Decimal.toList_render_negSucc]
    exact List.forall_mem_cons.mpr
      ⟨by decide, isBasic_toDigits (by decide) (by decide) (k + 1)⟩

/-- Texts with another between them. -/
theorem isBasic_intercalate {separator : String} {parts : List String}
    (hseparator : ∀ c ∈ separator.toList, IsBasic c)
    (hparts : ∀ part ∈ parts, ∀ c ∈ part.toList, IsBasic c) :
    ∀ c ∈ (separator.intercalate parts).toList, IsBasic c := by
  rw [String.toList_intercalate]
  induction parts with
  | nil => exact nofun
  | cons part rest ih =>
    rw [List.forall_mem_cons] at hparts
    cases rest with
    | nil => simpa using hparts.1
    | cons part' rest =>
      rw [List.map_cons, List.map_cons, List.intercalate_cons_cons]
      exact List.forall_mem_append.mpr
        ⟨List.forall_mem_append.mpr ⟨hparts.1, hseparator⟩, ih hparts.2⟩

end Text

namespace Json

open Text

theorem isBasic_unitText (n : Nat) : ∀ c ∈ unitText n, IsBasic c :=
  List.forall_mem_cons.mpr ⟨by decide, List.forall_mem_cons.mpr ⟨by decide, isBasic_hex 4 n⟩⟩

theorem isBasic_numberedText (n : Nat) : ∀ c ∈ numberedText n, IsBasic c := by
  unfold numberedText
  split
  · exact isBasic_unitText n
  · exact List.forall_mem_append.mpr ⟨isBasic_unitText _, isBasic_unitText _⟩

/-- Whatever a code point is, it is written in such characters. -/
theorem isBasic_codeText (n : Nat) : ∀ c ∈ codeText n, IsBasic c := by
  have hletter {c : Char} (hc : IsBasic c) : ∀ d ∈ ['\\', c], IsBasic d :=
    List.forall_mem_cons.mpr ⟨by decide, List.forall_mem_singleton.mpr hc⟩
  unfold codeText
  repeat' split
  · next hquote =>
    simp only [Bool.or_eq_true, decide_eq_true_eq] at hquote
    rcases hquote with rfl | rfl <;> exact hletter (by decide)
  iterate 5 exact hletter (by decide)
  · next hshows =>
    simp only [Bool.and_eq_true, decide_eq_true_eq] at hshows
    have hascii : ∀ k < 0x7f, (Char.ofNat k).toNat = k := by decide
    have hcode := hascii n (by omega)
    exact List.forall_mem_singleton.mpr (.inr (by omega))
  · exact isBasic_numberedText n

theorem isBasic_quotedText (p : Points) : ∀ c ∈ (quotedText p).toList, IsBasic c := by
  rw [quotedText, String.toList_ofList]
  refine List.forall_mem_cons.mpr ⟨by decide, List.forall_mem_append.mpr ⟨fun c hc => ?_, ?_⟩⟩
  · obtain ⟨n, -, hn⟩ := List.mem_flatMap.mp hc
    exact isBasic_codeText n c hn
  · exact List.forall_mem_singleton.mpr (by decide)

/-! ## §2 Documents -/

theorem isBasic_lineStart (depth : Nat) : ∀ c ∈ (lineStart depth).toList, IsBasic c := by
  rw [lineStart, String.toList_append]
  refine List.forall_mem_append.mpr ⟨by simp [IsBasic], fun c hc => ?_⟩
  rw [String.toList_ofList] at hc
  rw [List.eq_of_mem_replicate hc]
  decide

theorem isBasic_bracketed {opening closing : String} {parts : List String}
    (hopening : ∀ c ∈ opening.toList, IsBasic c) (hclosing : ∀ c ∈ closing.toList, IsBasic c)
    (hparts : ∀ part ∈ parts, ∀ c ∈ part.toList, IsBasic c) (depth : Nat) :
    ∀ c ∈ (bracketed opening closing depth parts).toList, IsBasic c := by
  have hseparator : ∀ c ∈ ("," ++ lineStart (depth + 1)).toList, IsBasic c := by
    rw [String.toList_append]
    exact List.forall_mem_append.mpr ⟨by simp [IsBasic], isBasic_lineStart _⟩
  unfold bracketed
  split
  · rw [String.toList_append]
    exact List.forall_mem_append.mpr ⟨hopening, hclosing⟩
  · simp only [String.toList_append, List.forall_mem_append]
    exact ⟨⟨⟨⟨hopening, isBasic_lineStart _⟩, isBasic_intercalate hseparator hparts⟩,
      isBasic_lineStart _⟩, hclosing⟩

namespace Tree

mutual

theorem isBasic_layout (depth : Nat) (t : Tree) : ∀ c ∈ (layout depth t).toList, IsBasic c := by
  cases t with
  | number n => exact isBasic_render n
  | list items =>
    exact isBasic_bracketed (by simp [IsBasic]) (by simp [IsBasic])
      (isBasic_itemLayouts (depth + 1) items) depth
  | fields entries =>
    exact isBasic_bracketed (by simp [IsBasic]) (by simp [IsBasic])
      (isBasic_fieldLayouts (depth + 1) entries) depth

theorem isBasic_itemLayouts (depth : Nat) (ts : List Tree) :
    ∀ part ∈ itemLayouts depth ts, ∀ c ∈ part.toList, IsBasic c := by
  cases ts with
  | nil => exact nofun
  | cons t rest =>
    exact List.forall_mem_cons.mpr ⟨isBasic_layout depth t, isBasic_itemLayouts depth rest⟩

theorem isBasic_fieldLayouts (depth : Nat) (entries : List (Points × Tree)) :
    ∀ part ∈ fieldLayouts depth entries, ∀ c ∈ part.toList, IsBasic c := by
  cases entries with
  | nil => exact nofun
  | cons entry rest =>
    obtain ⟨k, t⟩ := entry
    have hentry : ∀ c ∈ (quotedText k ++ ": " ++ layout depth t).toList, IsBasic c := by
      simp only [String.toList_append, List.forall_mem_append]
      exact ⟨⟨isBasic_quotedText k, by simp [IsBasic]⟩, isBasic_layout depth t⟩
    exact List.forall_mem_cons.mpr ⟨hentry, isBasic_fieldLayouts depth rest⟩

end

/-- **Documents.** Whatever a document holds, its text has line feeds and characters of
ASCII that show, and no others. -/
theorem isBasic_text (t : Tree) : ∀ c ∈ t.text.toList, IsBasic c := isBasic_layout 0 t

end Tree

end Json

/-! ## §3 Terminals -/

namespace Command.Terminal

/-- A control sequence begins with an escape character. -/
theorem width?_cons_of_ne {n : Nat} (h : n ≠ 0x1b) (rest : List Nat) :
    width? (n :: rest) = none := by
  unfold width?
  split
  · next heq =>
    cases heq
    exact absurd rfl h
  · rfl

theorem plainCodes_eq_self {ns : List Nat} (h : ∀ n ∈ ns, n ≠ 0x1b) : plainCodes 0 ns = ns := by
  induction ns with
  | nil => rfl
  | cons n rest ih =>
    rw [List.forall_mem_cons] at h
    rw [plainCodes, width?_cons_of_ne h.1, ih h.2]

/-- **Lines.** A text in such characters is printed as it is. -/
theorem line_ofString {s : String} (h : ∀ c ∈ s.toList, Text.IsBasic c) :
    line (.ofString s) = .ok (s ++ "\n") := by
  have hcodes : ∀ n ∈ (Points.ofString s).codes, n ≠ 0x1b := by
    rw [Points.codes_ofString, List.forall_mem_map]
    intro c hc hescape
    rcases h c hc with rfl | hshows
    · cases hescape
    · omega
  rw [line, plain, plainCodes_eq_self hcodes, Points.toString?_ofString]

end Command.Terminal

end GraphShapes
