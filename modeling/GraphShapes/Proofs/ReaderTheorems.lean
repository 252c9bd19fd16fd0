/-
GraphShapes.Proofs.ReaderTheorems — what is read of a row of tokens.

Reading is one fold over the tokens. What a state may turn into is said once, by the
relation `Step` (`step_of_next`), and what every step preserves holds of the value that
is read (`invariant_of_readTokens`). Two things are preserved: which kind of container
was opened first (`rootIsKeyed?`), so a text of a keyed container begins with a brace
(`exists_openFields_of_readChars`); and that what is held is made of words, numbers and
texts (`IsValue`), so a value that was read is (`isValue_of_readChars`), and its integers
have texts (`isWritable_of_readChars`). Only a closing brace completes a keyed container,
so its text ends with one (`exists_closeFields_of_readChars`).

Offsets are there for errors only: rows with the same tokens have the same value
(`readTokens_congr`), and only sound tokens have one (`isSound_of_readTokens`).

  §1 Tokens   — the tokens that may stand in a document.
  §2 Steps    — what a state may turn into.
  §3 Roots    — the outermost container.
  §4 Values   — what a value that is read is made of.
-/
import GraphShapes.Json.Reader
import GraphShapes.Proofs.ResultTheorems
import GraphShapes.Proofs.WritingTheorems
import Mathlib.Data.List.TakeWhile

namespace GraphShapes

/-! ## §1 Tokens -/

/-- Is the value a keyed container? -/
def Datum.isKeyed : Datum → Bool
  | .dict _ => true
  | _ => false

theorem Datum.isKeyed_of_isLeaf {d : Datum} (h : d.isLeaf = true) : d.isKeyed = false := by
  cases d with
  | null | bool | float | int => rfl
  | _ => cases h

theorem Datum.isKeyed_ofPoints (p : Points) : (Datum.ofPoints p).isKeyed = false := by
  unfold ofPoints
  split <;> rfl

namespace Json

variable {t : Token} {d : Datum} {c : Char} {cs rest : List Char} {width : Nat}

/-- Can the token stand in a document? -/
def Token.isSound : Token → Bool
  | .overlong => false
  | .broken _ _ => false
  | .other => false
  | _ => true

/-- A word or a number, or what stands in its place. -/
inductive Token.IsLiteral : Token → Prop
  | leaf {d : Datum} (leaf : d.isLeaf = true) : IsLiteral (.literal d)
  | overlong : IsLiteral .overlong
  | other : IsLiteral .other

/-- A token whose value holds no other, if it has one. -/
def Token.IsProper (t : Token) : Prop := ∀ d, t = .literal d → d.isLeaf = true

theorem Token.IsLiteral.isProper (h : t.IsLiteral) : t.IsProper := by
  rintro d rfl
  cases h with
  | leaf hleaf => exact hleaf

theorem isLeaf_of_word? (h : word? cs = some (d, width)) : d.isLeaf = true := by
  unfold word? at h
  split at h <;> cases h <;> rfl

theorem isDigit_of_mem_wholeDigits (h : c ∈ wholeDigits cs) : c.isDigit = true := by
  unfold wholeDigits at h
  split at h
  · rw [List.mem_singleton.mp h]
    rfl
  · exact List.mem_takeWhile_imp h

theorem isLiteral_integerToken (negative : Bool) {digits : List Char}
    (hdigits : ∀ c ∈ digits, c.isDigit = true) : (integerToken negative digits).IsLiteral := by
  rw [integerToken]
  split
  · exact .overlong
  · next hfew =>
    refine .leaf ?_
    have hbound : Binary.ofDigitChars digits < Decimal.bound :=
      Nat.lt_of_lt_of_le (Binary.ofDigitChars_lt hdigits)
        (Decimal.pow_le_bound (Nat.le_of_not_lt hfew))
    rw [Datum.isLeaf, Decimal.isWritable, decide_eq_true_eq]
    split
    · rwa [Int.natAbs_neg, Int.natAbs_natCast]
    · rwa [Int.natAbs_natCast]

theorem isLiteral_of_unsignedNumber? {negative : Bool}
    (h : unsignedNumber? negative cs = some (t, width)) : t.IsLiteral := by
  simp only [unsignedNumber?] at h
  split at h
  · cases h
  · split at h
    · cases h
      exact .leaf rfl
    · split at h
      · cases h
        exact isLiteral_integerToken negative fun c hc => isDigit_of_mem_wholeDigits hc
      · cases h
        exact .leaf rfl

theorem isLiteral_of_number? (h : number? cs = some (t, width)) : t.IsLiteral := by
  unfold number? at h
  split at h
  · obtain ⟨⟨t', width'⟩, hnumber, heq⟩ := Option.map_eq_some_iff.mp h
    cases heq
    exact isLiteral_of_unsignedNumber? hnumber
  · exact isLiteral_of_unsignedNumber? h

theorem isLiteral_literalToken (cs : List Char) : (literalToken cs).1.IsLiteral := by
  unfold literalToken
  split
  · next hword => exact .leaf (isLeaf_of_word? hword)
  · cases hnumber : number? cs with
    | none => exact .other
    | some found => exact isLiteral_of_number? hnumber

theorem isProper_firstToken (c : Char) (rest : List Char) : (firstToken c rest).1.IsProper := by
  unfold firstToken
  split
  case h_8 => exact (isLiteral_literalToken _).isProper
  case h_7 =>
    unfold textToken
    split <;> exact fun d hd => by cases hd
  all_goals exact fun d hd => by cases hd

/-- The character that a token is, if it is always the same one. -/
def Token.sign? : Token → Option Char
  | .openList => some '['
  | .closeList => some ']'
  | .openFields => some '\x7b'
  | .closeFields => some '\x7d'
  | .colon => some ':'
  | .comma => some ','
  | _ => none

/-- Nothing else begins such a token. -/
theorem eq_sign_of_firstToken {sign : Char} (h : (firstToken c rest).1 = t)
    (hsign : t.sign? = some sign) : c = sign := by
  unfold firstToken at h
  split at h
  case h_7 =>
    unfold textToken at h
    split at h <;> cases h <;> cases hsign
  case h_8 =>
    have hliteral := isLiteral_literalToken (c :: rest)
    rw [h] at hliteral
    cases hliteral <;> cases hsign
  all_goals
    cases h
    cases hsign
    rfl

theorem isProper_of_mem_scan {skip offset : Nat} {placed : Placed}
    (h : placed ∈ scan skip offset cs) : placed.token.IsProper := by
  induction cs generalizing skip offset with
  | nil => cases skip <;> cases h
  | cons c rest ih =>
    cases skip with
    | succ skip => exact ih h
    | zero =>
      rw [scan] at h
      split at h
      · exact ih h
      · rcases List.mem_cons.mp h with rfl | hrest
        · exact isProper_firstToken c rest
        · exact ih hrest

/-! ## §2 Steps -/

namespace State

theorem text_of_takeKey {entries : List (Points × Datum)} {outer : List Frame} {s : State}
    (h : takeKey entries outer t = .ok s) : ∃ p, t = .text p ∧ s = .colon entries p outer := by
  unfold takeKey at h
  split at h
  · cases h
    exact ⟨_, rfl, rfl⟩
  · cases h
  · cases h

variable [Nesting]

/-- What a value may begin with, and the state behind it. -/
inductive Takes (frames : List Frame) : Token → State → Prop
  | list (shallow : frames.length < Nesting.room) : Takes frames .openList (.firstItem frames)
  | fields (shallow : frames.length < Nesting.room) : Takes frames .openFields (.firstKey frames)
  | text (p : Points) : Takes frames (.text p) (complete (.ofPoints p) frames)
  | literal (d : Datum) : Takes frames (.literal d) (complete d frames)

/-- What a state may turn into. -/
inductive Step : State → Token → State → Prop
  | value {frames : List Frame} {t : Token} {s : State} (takes : Takes frames t s) :
      Step (.value frames) t s
  | item {outer : List Frame} {t : Token} {s : State} (takes : Takes (.list [] :: outer) t s) :
      Step (.firstItem outer) t s
  | emptyList (outer : List Frame) : Step (.firstItem outer) .closeList (completeList [] outer)
  | firstKey (outer : List Frame) (p : Points) :
      Step (.firstKey outer) (.text p) (.colon [] p outer)
  | emptyFields (outer : List Frame) :
      Step (.firstKey outer) .closeFields (completeFields [] outer)
  | key (entries : List (Points × Datum)) (outer : List Frame) (p : Points) :
      Step (.key entries outer) (.text p) (.colon entries p outer)
  | colon (entries : List (Points × Datum)) (k : Points) (outer : List Frame) :
      Step (.colon entries k outer) .colon (.value (.fields entries k :: outer))
  | nextItem (items : List Datum) (outer : List Frame) :
      Step (.afterItem items outer) .comma (.value (.list items :: outer))
  | closeList (items : List Datum) (outer : List Frame) :
      Step (.afterItem items outer) .closeList (completeList items outer)
  | nextField (entries : List (Points × Datum)) (outer : List Frame) :
      Step (.afterField entries outer) .comma (.key entries outer)
  | closeFields (entries : List (Points × Datum)) (outer : List Frame) :
      Step (.afterField entries outer) .closeFields (completeFields entries outer)

theorem takes_of_takeValue {frames : List Frame} {s : State}
    (h : takeValue frames t = .ok s) : Takes frames t s := by
  unfold takeValue enter at h
  split at h
  · split at h
    · next hshallow =>
      cases h
      exact .list hshallow
    · cases h
  · split at h
    · next hshallow =>
      cases h
      exact .fields hshallow
    · cases h
  all_goals cases h
  · exact .text _
  · exact .literal _

/-- **Steps.** A token that is accepted makes a step. -/
theorem step_of_next {s s' : State} (h : s.next t = .ok s') : Step s t s' := by
  unfold next at h
  split at h
  · exact .value (takes_of_takeValue h)
  · cases h
    exact .emptyList _
  · exact .item (takes_of_takeValue h)
  · cases h
    exact .emptyFields _
  · obtain ⟨p, rfl, rfl⟩ := text_of_takeKey h
    exact .firstKey _ p
  · obtain ⟨p, rfl, rfl⟩ := text_of_takeKey h
    exact .key _ _ p
  all_goals cases h
  · exact .colon _ _ _
  · exact .nextItem _ _
  · exact .closeList _ _
  · exact .nextField _ _
  · exact .closeFields _ _

theorem Step.isSound {s s' : State} (h : Step s t s') : t.isSound = true := by
  cases h with
  | value takes => cases takes <;> rfl
  | item takes => cases takes <;> rfl
  | _ => rfl

end State

variable {ts ts' : List Placed} {s : State} {endOffset endOffset' : Nat}

section Rows

variable [Nesting]

/-- What is read of a row of tokens is read from its first one on. -/
theorem readTokens_cons_eq_ok_iff {placed : Placed} :
    readTokens endOffset s (placed :: ts) = .ok d ↔
      ∃ s', s.next placed.token = .ok s' ∧ readTokens endOffset s' ts = .ok d := by
  rw [readTokens]
  split
  · next s' hnext => simp [hnext]
  · next r hnext => simp [hnext]

/-- Where the row ends, the document is complete. -/
theorem readTokens_nil_eq_ok_iff : readTokens endOffset s [] = .ok d ↔ s = .done d := by
  cases s with
  | done d' => simp [readTokens]
  | _ => simp [readTokens]

/-- What every step preserves holds of the value that is read. By induction on the
tokens. -/
theorem invariant_of_readTokens {P : State → Prop}
    (hstep : ∀ placed ∈ ts, ∀ s s', P s → State.Step s placed.token s' → P s')
    (h : readTokens endOffset s ts = .ok d) (hs : P s) : P (.done d) := by
  induction ts generalizing s with
  | nil => rwa [← readTokens_nil_eq_ok_iff.mp h]
  | cons placed rest ih =>
    rw [List.forall_mem_cons] at hstep
    obtain ⟨s', hnext, hrest⟩ := readTokens_cons_eq_ok_iff.mp h
    exact ih hstep.2 hrest (hstep.1 s s' hs (State.step_of_next hnext))

/-- A row that is read has sound tokens only. -/
theorem isSound_of_readTokens (h : readTokens endOffset s ts = .ok d) :
    ∀ placed ∈ ts, placed.token.isSound = true := by
  induction ts generalizing s with
  | nil => exact fun _ hmem => by cases hmem
  | cons placed rest ih =>
    obtain ⟨s', hnext, hrest⟩ := readTokens_cons_eq_ok_iff.mp h
    exact List.forall_mem_cons.mpr ⟨(State.step_of_next hnext).isSound, ih hrest⟩

/-- **Offsets.** The same tokens in other places have the same value. -/
theorem readTokens_congr (htokens : ts.map Placed.token = ts'.map Placed.token)
    (h : readTokens endOffset s ts = .ok d) : readTokens endOffset' s ts' = .ok d := by
  induction ts generalizing s ts' with
  | nil =>
    cases List.map_eq_nil_iff.mp htokens.symm
    exact readTokens_nil_eq_ok_iff.mpr (readTokens_nil_eq_ok_iff.mp h)
  | cons placed rest ih =>
    obtain ⟨placed', rest', rfl, hplaced, hrest⟩ := List.map_eq_cons_iff.mp htokens.symm
    obtain ⟨s', hnext, hread⟩ := readTokens_cons_eq_ok_iff.mp h
    rw [← hplaced] at hnext
    exact readTokens_cons_eq_ok_iff.mpr ⟨s', hnext, ih hrest.symm hread⟩

end Rows

/-! ## §3 Roots -/

/-- Is the container keyed? -/
def Frame.isKeyed : Frame → Bool
  | .list _ => false
  | .fields _ _ => true

/-- Is the container that was opened first keyed? `inner` says so of the innermost one. -/
def rootIsKeyed (inner : Bool) (outer : List Frame) : Bool :=
  (outer.getLast?.map Frame.isKeyed).getD inner

@[simp] theorem rootIsKeyed_nil (inner : Bool) : rootIsKeyed inner [] = inner := rfl

@[simp] theorem rootIsKeyed_cons (inner : Bool) (f : Frame) (outer : List Frame) :
    rootIsKeyed inner (f :: outer) = rootIsKeyed f.isKeyed outer := by
  rw [rootIsKeyed, rootIsKeyed, List.getLast?_cons]
  cases outer.getLast? <;> rfl

/-- Is the value keyed whose reading has come to a state? Nothing is known at the start. -/
def State.rootIsKeyed? : State → Option Bool
  | .value [] => none
  | .value (f :: outer) => some (rootIsKeyed f.isKeyed outer)
  | .firstItem outer => some (rootIsKeyed false outer)
  | .firstKey outer => some (rootIsKeyed true outer)
  | .key _ outer => some (rootIsKeyed true outer)
  | .colon _ _ outer => some (rootIsKeyed true outer)
  | .afterItem _ outer => some (rootIsKeyed false outer)
  | .afterField _ outer => some (rootIsKeyed true outer)
  | .done d => some d.isKeyed

namespace State

theorem rootIsKeyed?_complete (d : Datum) (frames : List Frame) :
    (complete d frames).rootIsKeyed? = some (rootIsKeyed d.isKeyed frames) := by
  cases frames with
  | nil => rfl
  | cons f outer =>
    rw [rootIsKeyed_cons]
    cases f <;> rfl

/-- The container that was opened first stays the outermost one. -/
theorem Step.rootIsKeyed? [Nesting] {s s' : State} {b : Bool} (hs : s.rootIsKeyed? = some b)
    (h : Step s t s') : s'.rootIsKeyed? = some b := by
  have htakes {f : Frame} {outer : List Frame} (h : Takes (f :: outer) t s') :
      s'.rootIsKeyed? = some (rootIsKeyed f.isKeyed outer) := by
    cases h with
    | list => exact congrArg some (rootIsKeyed_cons _ _ _)
    | fields => exact congrArg some (rootIsKeyed_cons _ _ _)
    | text => rw [rootIsKeyed?_complete, rootIsKeyed_cons]
    | literal => rw [rootIsKeyed?_complete, rootIsKeyed_cons]
  cases h with
  | @value frames _ _ takes =>
    cases frames with
    | nil => cases hs
    | cons f outer => exact (htakes takes).trans hs
  | item takes => exact (htakes takes).trans hs
  | emptyList => exact (rootIsKeyed?_complete _ _).trans hs
  | closeList => exact (rootIsKeyed?_complete _ _).trans hs
  | emptyFields => exact (rootIsKeyed?_complete _ _).trans hs
  | closeFields => exact (rootIsKeyed?_complete _ _).trans hs
  | _ => exact hs

end State

/-- **Roots.** A text that is a keyed container begins with the brace that opens one. -/
theorem exists_openFields_of_readChars [Nesting] {es : List (Datum × Datum)}
    (h : readChars cs = .ok (.dict es)) :
    ∃ offset rest, scan 0 0 cs = ⟨.openFields, offset⟩ :: rest := by
  unfold readChars at h
  split at h
  · cases h
  · cases hrow : scan 0 0 cs with
    | nil =>
      rw [hrow] at h
      cases h
    | cons placed rest =>
      have hproper : placed.token.IsProper :=
        isProper_of_mem_scan (hrow ▸ List.mem_cons_self : placed ∈ scan 0 0 cs)
      rw [hrow] at h
      obtain ⟨s', hnext, hrest⟩ := readTokens_cons_eq_ok_iff.mp h
      obtain ⟨token, offset⟩ := placed
      -- Once the first token is taken, the kind of the value is settled.
      have hkeyed (b : Bool) (hs : s'.rootIsKeyed? = some b) : b = true := by
        have hdone := invariant_of_readTokens (P := fun s => s.rootIsKeyed? = some b)
          (fun _ _ _ _ hs hstep => hstep.rootIsKeyed? hs) hrest hs
        exact (Option.some.inj hdone).symm
      cases State.step_of_next hnext with
      | value takes =>
        cases takes with
        | fields => exact ⟨offset, rest, rfl⟩
        | list => cases hkeyed false rfl
        | text p =>
          have hroot := hkeyed _ (State.rootIsKeyed?_complete _ _)
          rw [rootIsKeyed_nil, Datum.isKeyed_ofPoints] at hroot
          cases hroot
        | literal d =>
          have hroot := hkeyed _ (State.rootIsKeyed?_complete _ _)
          rw [rootIsKeyed_nil, Datum.isKeyed_of_isLeaf (hproper d rfl)] at hroot
          cases hroot

theorem State.complete_eq_done_iff {frames : List Frame} {d' : Datum} :
    complete d frames = .done d' ↔ frames = [] ∧ d = d' := by
  cases frames with
  | nil => simp [complete]
  | cons f outer => cases f <;> simp [complete]

/-- Only the brace that closes it completes a keyed container. -/
theorem State.Step.eq_closeFields [Nesting] {s : State} {es : List (Datum × Datum)}
    (ht : t.IsProper) (h : Step s t (.done (.dict es))) : t = .closeFields := by
  generalize hdone : State.done (.dict es) = s' at h
  have htakes {frames : List Frame} : ¬ Takes frames t s' := by
    intro h
    cases h with
    | list | fields => cases hdone
    | text p =>
      have hkeyed := Datum.isKeyed_ofPoints p
      rw [(complete_eq_done_iff.mp hdone.symm).2] at hkeyed
      cases hkeyed
    | literal d =>
      have hkeyed := Datum.isKeyed_of_isLeaf (ht d rfl)
      rw [(complete_eq_done_iff.mp hdone.symm).2] at hkeyed
      cases hkeyed
  cases h with
  | value takes | item takes => exact absurd takes htakes
  | emptyList | closeList => cases (complete_eq_done_iff.mp hdone.symm).2
  | emptyFields | closeFields => rfl
  | _ => cases hdone

/-- **Ends.** A text that is a keyed container ends with the brace that closes one. -/
theorem exists_closeFields_of_readChars [Nesting] {es : List (Datum × Datum)}
    (h : readChars cs = .ok (.dict es)) :
    ∃ front offset, scan 0 0 cs = front ++ [⟨.closeFields, offset⟩] := by
  have hlast {s : State} {ts : List Placed} (hproper : ∀ placed ∈ ts, placed.token.IsProper)
      (h : readTokens cs.length s ts = .ok (.dict es)) (hs : s ≠ .done (.dict es)) :
      ∃ front offset, ts = front ++ [⟨.closeFields, offset⟩] := by
    induction ts generalizing s with
    | nil => exact absurd (readTokens_nil_eq_ok_iff.mp h) hs
    | cons placed rest ih =>
      rw [List.forall_mem_cons] at hproper
      obtain ⟨s', hnext, hrest⟩ := readTokens_cons_eq_ok_iff.mp h
      by_cases hs' : s' = .done (.dict es)
      · subst hs'
        obtain ⟨token, offset⟩ := placed
        cases (State.step_of_next hnext).eq_closeFields hproper.1
        cases rest with
        | nil => exact ⟨[], offset, rfl⟩
        | cons placed' rest =>
          obtain ⟨_, hnext', _⟩ := readTokens_cons_eq_ok_iff.mp hrest
          cases hnext'
      · obtain ⟨front, offset, rfl⟩ := ih hproper.2 hrest hs'
        exact ⟨placed :: front, offset, rfl⟩
  unfold readChars at h
  split at h
  · cases h
  · exact hlast (fun _ hmem => isProper_of_mem_scan hmem) h nofun

/-! ## §4 Values -/

/-- A value that a text can have. -/
inductive IsValue : Datum → Prop
  | leaf {d : Datum} (leaf : d.isLeaf = true) : IsValue d
  | text (p : Points) : IsValue (.ofPoints p)
  | list {items : List Datum} (values : ∀ d ∈ items, IsValue d) : IsValue (.list items)
  | fields {entries : List (Points × Datum)} (values : ∀ entry ∈ entries, IsValue entry.2) :
      IsValue (.dict (entries.map fun (k, v) => (.ofPoints k, v)))

/-- Does a container that is still open hold such values? -/
def Frame.Holds : Frame → Prop
  | .list items => ∀ d ∈ items, IsValue d
  | .fields entries _ => ∀ entry ∈ entries, IsValue entry.2

/-- Has nothing but such values been read? -/
def State.Holds : State → Prop
  | .value frames => ∀ f ∈ frames, f.Holds
  | .firstItem outer => ∀ f ∈ outer, f.Holds
  | .firstKey outer => ∀ f ∈ outer, f.Holds
  | .key entries outer => (∀ entry ∈ entries, IsValue entry.2) ∧ ∀ f ∈ outer, f.Holds
  | .colon entries _ outer => (∀ entry ∈ entries, IsValue entry.2) ∧ ∀ f ∈ outer, f.Holds
  | .afterItem items outer => (∀ d ∈ items, IsValue d) ∧ ∀ f ∈ outer, f.Holds
  | .afterField entries outer => (∀ entry ∈ entries, IsValue entry.2) ∧ ∀ f ∈ outer, f.Holds
  | .done d => IsValue d

namespace State

variable {frames outer : List Frame} {items : List Datum} {entries : List (Points × Datum)}

/-- A field that is put holds the new value or an old one. -/
theorem isValue_putField (hd : IsValue d) (h : ∀ entry ∈ entries, IsValue entry.2) (k : Points) :
    ∀ entry ∈ putField entries k d, IsValue entry.2 := by
  unfold putField
  split
  · rw [List.forall_mem_map]
    intro entry hentry
    dsimp only
    split
    · exact hd
    · exact h entry hentry
  · exact List.forall_mem_append.mpr ⟨h, List.forall_mem_singleton.mpr hd⟩

theorem holds_complete (hd : IsValue d) (hframes : ∀ f ∈ frames, f.Holds) :
    (complete d frames).Holds := by
  cases frames with
  | nil => exact hd
  | cons f outer =>
    obtain ⟨hf, houter⟩ := List.forall_mem_cons.mp hframes
    cases f with
    | list items => exact ⟨List.forall_mem_cons.mpr ⟨hd, hf⟩, houter⟩
    | fields entries k => exact ⟨isValue_putField hd hf k, houter⟩

theorem holds_completeList (hitems : ∀ d ∈ items, IsValue d) (houter : ∀ f ∈ outer, f.Holds) :
    (completeList items outer).Holds :=
  holds_complete (.list fun d hd => hitems d (List.mem_reverse.mp hd)) houter

theorem holds_completeFields (hentries : ∀ entry ∈ entries, IsValue entry.2)
    (houter : ∀ f ∈ outer, f.Holds) : (completeFields entries outer).Holds :=
  holds_complete (.fields hentries) houter

/-- No step brings in another kind of value. -/
theorem Step.holds [Nesting] {s s' : State} (ht : t.IsProper) (hs : s.Holds) (h : Step s t s') :
    s'.Holds := by
  have htakes {frames : List Frame} (h : Takes frames t s') (hframes : ∀ f ∈ frames, f.Holds) :
      s'.Holds := by
    cases h with
    | list => exact hframes
    | fields => exact hframes
    | text p => exact holds_complete (.text p) hframes
    | literal d => exact holds_complete (.leaf (ht d rfl)) hframes
  cases h with
  | value takes => exact htakes takes hs
  | item takes => exact htakes takes (List.forall_mem_cons.mpr ⟨nofun, hs⟩)
  | emptyList => exact holds_completeList nofun hs
  | emptyFields => exact holds_completeFields nofun hs
  | closeList => exact holds_completeList hs.1 hs.2
  | closeFields => exact holds_completeFields hs.1 hs.2
  | firstKey => exact ⟨nofun, hs⟩
  | key | nextField => exact hs
  | colon => exact List.forall_mem_cons.mpr hs
  | nextItem => exact List.forall_mem_cons.mpr hs

end State

/-- **Values.** What is read of a text is made of words, numbers and texts. -/
theorem isValue_of_readChars [Nesting] (h : readChars cs = .ok d) : IsValue d := by
  unfold readChars at h
  split at h
  · cases h
  · exact invariant_of_readTokens (P := State.Holds)
      (fun _ hmem _ _ hs hstep => hstep.holds (isProper_of_mem_scan hmem) hs) h nofun

/-- The items of such a value are such values: texts yield their letters, and keyed
containers yield their keys. -/
theorem isValue_of_yields {ds : List Datum} (hd : IsValue d) (h : d.yields = .ok ds) :
    ∀ item ∈ ds, IsValue item := by
  have hletter (c : Char) : IsValue (.text (String.singleton c)) := by
    have htext := IsValue.text (Points.ofString (String.singleton c))
    rwa [Datum.ofPoints, Points.toString?_ofString] at htext
  cases hd with
  | leaf hleaf =>
    cases d with
    | null | bool | int | float => cases h
    | _ => cases hleaf
  | text p =>
    unfold Datum.ofPoints at h
    split at h
    · cases h
      exact List.forall_mem_map.mpr fun c _ => hletter c
    · cases h
      exact List.forall_mem_map.mpr fun n _ => .text ⟨[n]⟩
  | list values =>
    cases h
    exact values
  | fields values =>
    cases h
    simp only [List.forall_mem_map]
    exact fun entry _ => .text entry.1

theorem isValue_of_lookup {es : List (Datum × Datum)} {key : String} (hes : IsValue (.dict es))
    (h : Datum.lookup es key = some d) : IsValue d := by
  obtain ⟨entry, hfound, rfl⟩ := Option.map_eq_some_iff.mp h
  have hentry := List.mem_of_find?_eq_some hfound
  generalize hdict : Datum.dict es = d at hes
  cases hes with
  | leaf hleaf =>
    subst hdict
    cases hleaf
  | text p =>
    unfold Datum.ofPoints at hdict
    split at hdict <;> cases hdict
  | list values => cases hdict
  | fields values =>
    cases hdict
    obtain ⟨field, hfield, rfl⟩ := List.mem_map.mp hentry
    exact values field hfield

theorem hereditary_isValue : Datum.Hereditary IsValue where
  nil := .list nofun
  yields := isValue_of_yields
  lookup := isValue_of_lookup

/-- The integers of such a value have texts. -/
theorem IsValue.isWritable (h : IsValue d) : d.isWritable = true := by
  induction h with
  | leaf hleaf => exact Datum.isWritable_of_isLeaf hleaf
  | text p => exact Datum.isWritable_ofPoints p
  | list _ ih => exact Datum.areWritable_iff.mpr ih
  | fields _ ih =>
    refine Datum.entriesAreWritable_iff.mpr ?_
    rw [List.forall_mem_map]
    exact fun entry hentry => ⟨Datum.isWritable_ofPoints _, ih entry hentry⟩

theorem isWritable_of_readChars [Nesting] (h : readChars cs = .ok d) : d.isWritable = true :=
  (isValue_of_readChars h).isWritable

end Json

end GraphShapes
