/-
GraphShapes.Proofs.DescriptionTheorems — inputs that are described in text.

A text is read as an input or refused, and never anything else: whatever is read is a
value that a run accepts (`toMeta_toDatum`), and what is refused has one code. The other
way round, every integer, every list of integers and every tensor has a description
(`Meta.description?`), and its description is read as just that value, so no two of them
share one. Blanks around a text make no difference.

The descriptions have no common form: numbers, prefixes, and a word for the tensor
without axes. They are told apart by how they begin. A numeral begins with a digit or a
sign and none of the words does (`readTrimmed_of_isNumeral`), and the prefix of integers
is no beginning of the one of lists.

  §1 Values       — what is known of a described input.
  §2 Beginnings   — which of the forms a text has.
  §3 Reading      — texts that are read, refused, or have blanks around them.
  §4 Descriptions — the round trip, form by form.
-/
import GraphShapes.Input
import GraphShapes.Proofs.NumeralTheorems

namespace GraphShapes

open Decimal (render readInt isNumeral)

/-- The description of a value as an input, if it has one. -/
def Meta.description? : Meta → Option String
  | .tensor [] => some "scalar"
  | .tensor sizes => some ("x".intercalate (sizes.map render))
  | .scalar n => some ("int:" ++ render n)
  | .ints ns => some ("ints:" ++ ",".intercalate (ns.map render))
  | .nothing => none

namespace Input

/-! ## §1 Values -/

/-- What is known of a described input. -/
def Described.known : Described → Meta
  | .int n => .scalar n
  | .bool b => .scalar b.toInt
  | .ints ns => .ints ns
  | .tensor sizes => .tensor sizes

/-- Integers in a container are gone through one by one. -/
theorem mapM_map_int {m : Type → Type} [Monad m] [LawfulMonad m] {f : Datum → m Int}
    (h : ∀ n, f (.int n) = pure n) (ns : List Int) : (ns.map Datum.int).mapM f = pure ns := by
  have hpure : f ∘ Datum.int = fun n => pure (id n) := funext h
  rw [List.mapM_map, hpure, List.mapM_pure, List.map_id]

/-- Every described input is accepted. -/
theorem toMeta_toDatum (d : Described) : toMeta d.toDatum = .ok d.known := by
  cases d with
  | int n => rfl
  | bool b => rfl
  | ints ns =>
    have hints : (Datum.list (ns.map .int)).asInts? = some ns := mapM_map_int (fun _ => rfl) ns
    change ofList (.list (ns.map .int)) = _
    rw [ofList, hints]
    rfl
  | tensor ns =>
    have hsizes : (ns.map Datum.int).mapM Datum.toInt = .ok ns := mapM_map_int (fun _ => rfl) ns
    change sizes (ns.map .int) = _
    rw [sizes, hsizes]
    rfl

/-! ## §2 Beginnings -/

theorem readTrimmed_int (cs : List Char) :
    readTrimmed ("int:".toList ++ cs) = (readInt cs).map .int := rfl

theorem readTrimmed_ints {cs : List Char} (h : cs ≠ []) :
    readTrimmed ("ints:".toList ++ cs) = (readInts (· == ',') cs).map .ints := by
  cases cs with
  | nil => exact absurd rfl h
  | cons c rest => rfl

/-- What begins with a digit or a sign is no word and has no prefix. -/
theorem readTrimmed_of_isNumeral {c : Char} (h : isNumeral c = true) (cs : List Char) :
    readTrimmed (c :: cs)
      = (readInts (fun d => d == 'x' || d == 'X') (c :: cs)).map .tensor := by
  unfold readTrimmed
  split
  case h_6 => rfl
  -- Every other form begins with a letter, which is neither.
  all_goals
    next heq =>
      cases heq
      cases h

/-! ## §3 Reading -/

/-- The text is read as an input of which this is known. -/
def Reads (text : String) (m : Meta) : Prop :=
  ∃ d, describe text = .ok d ∧ toMeta d.toDatum = .ok m

variable {text : String} {m m' : Meta}

theorem Reads.unique (h : Reads text m) (h' : Reads text m') : m = m' := by
  obtain ⟨d, hd, hm⟩ := h
  obtain ⟨d', hd', hm'⟩ := h'
  cases hd.symm.trans hd'
  exact Except.ok.inj (hm.symm.trans hm')

/-- A text is refused, with the one code that there is for it, or read. -/
theorem refused_or_reads (text : String) :
    (∃ e, describe text = .error e ∧ e.code = "EINPUT_TYPE") ∨ ∃ m, Reads text m := by
  cases hread : readTrimmed (Text.trim text.toList) with
  | none =>
    refine Or.inl ⟨.inputText (String.ofList (Text.trim text.toList)), ?_, rfl⟩
    simp only [describe, hread]
  | some d =>
    refine Or.inr ⟨d.known, d, ?_, toMeta_toDatum d⟩
    simp only [describe, hread]

/-- Blanks around a text are dropped before it is read. -/
theorem describe_append {front back : String}
    (hfront : ∀ c ∈ front.toList, Text.isBlank c = true)
    (hback : ∀ c ∈ back.toList, Text.isBlank c = true) (text : String) :
    describe (front ++ text ++ back) = describe text := by
  have htrim : Text.trim (front ++ text ++ back).toList = Text.trim text.toList := by
    rw [String.toList_append, String.toList_append]
    exact Text.strip_append hfront hback
  simp only [describe, htrim]

/-- A text without blanks is read as it stands. -/
theorem reads_of_readTrimmed {d : Described} (hblank : ∀ c ∈ text.toList, Text.isBlank c = false)
    (h : readTrimmed text.toList = some d) : Reads text d.known := by
  refine ⟨d, ?_, toMeta_toDatum d⟩
  simp only [describe, Text.trim, Text.strip_eq_self hblank, h]

/-! ## §4 Descriptions -/

variable {n : Int} {ns : List Int}

theorem reads_int (h : Decimal.isWritable n = true) : Reads ("int:" ++ render n) (.scalar n) := by
  have hread : readTrimmed ("int:" ++ render n).toList = some (.int n) := by
    rw [String.toList_append, readTrimmed_int, Decimal.readInt_render h]
    rfl
  refine reads_of_readTrimmed ?_ hread
  rw [String.toList_append, List.forall_mem_append]
  refine ⟨by simp [Text.isBlank], fun c hc => ?_⟩
  exact Decimal.isBlank_of_isNumeral (Decimal.isNumeral_of_mem_render n c hc)

theorem reads_ints (h : ∀ n ∈ ns, Decimal.isWritable n = true) :
    Reads ("ints:" ++ ",".intercalate (ns.map render)) (.ints ns) := by
  have hbody : (",".intercalate (ns.map render)).toList = Decimal.numerals ',' ns :=
    Decimal.toList_intercalate_render rfl ns
  have hcomma : ∀ c, isNumeral c = true → (c == ',') = false :=
    fun c hc => Decimal.beq_eq_false_of_isNumeral hc rfl
  have hread : readTrimmed ("ints:" ++ ",".intercalate (ns.map render)).toList
      = some (.ints ns) := by
    rw [String.toList_append, hbody]
    by_cases hne : ns = []
    · subst hne
      rfl
    · obtain ⟨c, cs, _, hcs⟩ := Decimal.exists_numerals_eq_cons ',' hne
      rw [readTrimmed_ints (hcs ▸ List.cons_ne_nil c cs), readInts_numerals rfl hcomma hne h]
      rfl
  refine reads_of_readTrimmed ?_ hread
  rw [String.toList_append, hbody, List.forall_mem_append]
  refine ⟨by simp [Text.isBlank], ?_⟩
  exact Decimal.forall_mem_numerals (by decide) (fun _ => Decimal.isBlank_of_isNumeral) ns

theorem reads_sizes (hne : ns ≠ []) (h : ∀ n ∈ ns, Decimal.isWritable n = true) :
    Reads ("x".intercalate (ns.map render)) (.tensor ns) := by
  have htext : ("x".intercalate (ns.map render)).toList = Decimal.numerals 'x' ns :=
    Decimal.toList_intercalate_render rfl ns
  obtain ⟨c, cs, hc, hcs⟩ := Decimal.exists_numerals_eq_cons 'x' hne
  have hcross : ∀ d, isNumeral d = true → (d == 'x' || d == 'X') = false := by
    intro d hd
    rw [Decimal.beq_eq_false_of_isNumeral hd rfl, Decimal.beq_eq_false_of_isNumeral hd rfl]
    rfl
  have hread : readTrimmed ("x".intercalate (ns.map render)).toList = some (.tensor ns) := by
    rw [htext, hcs, readTrimmed_of_isNumeral hc, ← hcs, readInts_numerals rfl hcross hne h]
    rfl
  refine reads_of_readTrimmed ?_ hread
  rw [htext]
  exact Decimal.forall_mem_numerals (by decide) (fun c => Decimal.isBlank_of_isNumeral) ns

theorem reads_scalar : Reads "scalar" (.tensor []) :=
  reads_of_readTrimmed (d := .tensor []) (by simp [Text.isBlank]) rfl

/-- **Round trip.** The description of a value is read as that value. -/
theorem reads_of_description? (h : m.description? = some text) (hm : m.isWritable = true) :
    Reads text m := by
  cases m with
  | nothing => cases h
  | scalar n =>
    cases h
    exact reads_int hm
  | ints ns =>
    cases h
    exact reads_ints (List.all_eq_true.mp hm)
  | tensor sizes =>
    cases sizes with
    | nil =>
      cases h
      exact reads_scalar
    | cons n rest =>
      cases h
      exact reads_sizes (List.cons_ne_nil n rest) (List.all_eq_true.mp hm)

/-- **Descriptions.** Every text is refused with the code of inputs or read as a value
that is accepted. An integer, a list of integers and the sizes of a tensor are read from
the numbers in plain form, led by a word and separated as the form asks, provided that
every number has a text. Blanks around a text change nothing. And descriptions that are
read as one value are descriptions of one value. -/
theorem describe_reads :
    (∀ text, (∃ e, describe text = .error e ∧ e.code = "EINPUT_TYPE") ∨ ∃ m, Reads text m) ∧
    (∀ n, Decimal.isWritable n = true → Reads ("int:" ++ render n) (.scalar n)) ∧
    (∀ ns : List Int, (∀ n ∈ ns, Decimal.isWritable n = true) →
      Reads ("ints:" ++ ",".intercalate (ns.map render)) (.ints ns)) ∧
    (∀ ns : List Int, ns ≠ [] → (∀ n ∈ ns, Decimal.isWritable n = true) →
      Reads ("x".intercalate (ns.map render)) (.tensor ns)) ∧
    Reads "scalar" (.tensor []) ∧
    (∀ front text back, (∀ c ∈ front.toList, Text.isBlank c = true) →
      (∀ c ∈ back.toList, Text.isBlank c = true) →
        describe (front ++ text ++ back) = describe text) ∧
    (∀ (m m' read : Meta) (text text' : String), m.description? = some text →
      m'.description? = some text' → m.isWritable = true → m'.isWritable = true →
        Reads text read → Reads text' read → m = m') := by
  refine ⟨refused_or_reads, fun n h => reads_int h, fun ns h => reads_ints h,
    fun ns hne h => reads_sizes hne h, reads_scalar, ?_, ?_⟩
  · intro front text back hfront hback
    exact describe_append hfront hback text
  · intro m m' read text text' htext htext' hm hm' hread hread'
    have hsame : read = m := hread.unique (reads_of_description? htext hm)
    rw [← hsame, hread'.unique (reads_of_description? htext' hm')]

end Input

end GraphShapes
