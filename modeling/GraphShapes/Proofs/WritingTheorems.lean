/-
GraphShapes.Proofs.WritingTheorems — values whose integers have texts.

An integer with too many digits is never written. Where every integer inside a value has
a text (`Datum.isWritable`), so it is for the parts of the value, for what it yields item
by item, and for the name that it spells. Words and numbers as a document writes them are
such values (`Datum.isLeaf`). A property that goes from a value to its parts is
`Datum.Hereditary`.

  §1 Numbers — digits, bytes and their bounds.
  §2 Values  — containers and their parts.
  §3 Names   — the value that spells a name.
-/
import GraphShapes.Datum.Items
import GraphShapes.Name
import GraphShapes.Number.Binary
import Mathlib.Data.List.Induction

namespace GraphShapes

/-! ## §1 Numbers -/

/-- The number that digits write has no more digits than these. -/
theorem Binary.ofDigitChars_lt {cs : List Char} (h : ∀ c ∈ cs, c.isDigit = true) :
    ofDigitChars cs < 10 ^ cs.length := by
  induction cs using List.reverseRecOn with
  | nil => decide
  | append_singleton cs c ih =>
    rw [List.forall_mem_append] at h
    have hrest := ih h.1
    have hdigit : c.toNat - 48 ≤ 9 := by
      have hc := h.2 c (List.mem_singleton_self c)
      simp only [Char.isDigit, Bool.and_eq_true, decide_eq_true_eq, UInt32.le_iff_toNat_le] at hc
      have hmost : c.toNat ≤ 57 := hc.2
      omega
    have hlast : ofDigitChars (cs ++ [c]) = 10 * ofDigitChars cs + (c.toNat - 48) := by
      rw [ofDigitChars, List.foldl_append]
      rfl
    rw [hlast, List.length_append, List.length_singleton, Nat.pow_succ]
    omega

/-! ## §2 Values -/

namespace Datum

/-- The values of words and numbers: none holds another, and integers have texts. -/
def isLeaf : Datum → Bool
  | .null => true
  | .bool _ => true
  | .int n => Decimal.isWritable n
  | .float _ => true
  | _ => false

theorem isWritable_of_isLeaf {d : Datum} (h : d.isLeaf = true) : d.isWritable = true := by
  cases d with
  | null | bool | float => rfl
  | int n => exact h
  | _ => cases h

theorem isWritable_ofPoints (p : Points) : (ofPoints p).isWritable = true := by
  unfold ofPoints
  split <;> rfl

theorem areWritable_iff {ds : List Datum} :
    areWritable ds = true ↔ ∀ d ∈ ds, d.isWritable = true := by
  induction ds with
  | nil => simp [areWritable]
  | cons d rest ih => simp [areWritable, ih]

theorem entriesAreWritable_iff {es : List (Datum × Datum)} :
    entriesAreWritable es = true ↔
      ∀ entry ∈ es, entry.1.isWritable = true ∧ entry.2.isWritable = true := by
  induction es with
  | nil => simp [entriesAreWritable]
  | cons entry rest ih =>
    obtain ⟨k, v⟩ := entry
    simp [entriesAreWritable, ih, and_assoc]

/-- The items of a value whose integers have texts are such values. -/
theorem isWritable_of_yields {d : Datum} {ds : List Datum} (hd : d.isWritable = true)
    (h : d.yields = .ok ds) : ∀ item ∈ ds, item.isWritable = true := by
  cases d with
  | list items | tuple items =>
    cases h
    exact areWritable_iff.mp hd
  | dict entries =>
    cases h
    rw [List.forall_mem_map]
    exact fun entry hentry => (entriesAreWritable_iff.mp hd entry hentry).1
  | text s =>
    cases h
    rw [List.forall_mem_map]
    exact fun c _ => rfl
  | ragged p =>
    cases h
    rw [List.forall_mem_map]
    exact fun n _ => isWritable_ofPoints ⟨[n]⟩
  | bytes bs =>
    cases h
    rw [List.forall_mem_map]
    intro b _
    rw [isWritable, Decimal.isWritable, Int.natAbs_natCast, decide_eq_true_eq]
    exact Nat.lt_trans b.toNat_lt Decimal.byte_lt_bound
  | array sizes element =>
    cases sizes with
    | nil => cases h
    | cons n rest =>
      cases rest with
      | nil =>
        cases h
        intro item hitem
        rw [List.eq_of_mem_replicate hitem]
        rfl
      | cons m rest =>
        cases h
        intro item hitem
        rw [List.eq_of_mem_replicate hitem]
        rfl
  | _ => cases h

theorem isWritable_of_lookup {es : List (Datum × Datum)} {key : String} {d : Datum}
    (hes : (dict es).isWritable = true) (h : lookup es key = some d) : d.isWritable = true := by
  obtain ⟨entry, hfound, rfl⟩ := Option.map_eq_some_iff.mp h
  exact (entriesAreWritable_iff.mp hes entry (List.mem_of_find?_eq_some hfound)).2

/-- A property of values that goes over to what they yield and to what their keys lead to.
An empty list has it. -/
structure Hereditary (P : Datum → Prop) : Prop where
  nil : P (.list [])
  yields {d : Datum} {ds : List Datum} (hd : P d) (h : d.yields = .ok ds) : ∀ item ∈ ds, P item
  lookup {es : List (Datum × Datum)} {key : String} {d : Datum} (hes : P (.dict es))
    (h : lookup es key = some d) : P d

theorem hereditary_isWritable : Hereditary fun d => d.isWritable = true where
  nil := rfl
  yields := isWritable_of_yields
  lookup := isWritable_of_lookup

end Datum

/-! ## §3 Names -/

mutual

/-- A name is the value that spells it. -/
theorem Name.toDatum_of_ofDatum? {d : Datum} {name : Name} (h : Name.ofDatum? d = some name) :
    name.toDatum = d := by
  cases d with
  | tuple items =>
    obtain ⟨parts, hparts, rfl⟩ := Option.map_eq_some_iff.mp h
    rw [Name.toDatum, Name.toData_of_ofData? hparts]
  | placeholder sizes =>
    obtain ⟨parts, hparts, rfl⟩ := Option.map_eq_some_iff.mp h
    rw [Name.toDatum, Name.toData_of_ofData? hparts]
  | list items => cases h
  | dict entries => cases h
  | array sizes element => cases h
  | elementSpan span => cases h
  | shaped asList sizes => cases h
  | _ =>
    cases h
    rfl

theorem Name.toData_of_ofData? {ds : List Datum} {names : Names}
    (h : Name.ofData? ds = some names) : Name.toData names = ds := by
  cases ds with
  | nil =>
    cases h
    rfl
  | cons d rest =>
    rw [Name.ofData?] at h
    split at h
    · next name names hname hnames =>
      cases h
      rw [Name.toData, Name.toDatum_of_ofDatum? hname, Name.toData_of_ofData? hnames]
    · cases h

end

end GraphShapes
