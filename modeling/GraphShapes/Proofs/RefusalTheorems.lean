/-
GraphShapes.Proofs.RefusalTheorems — which documents are refused, and how.

A document is refused in so many words where it is no JSON, no keyed container, names a
node without an operator, or describes a tensor without sizes. What else it holds has to
have the types that reading goes through: `Fits` says which. Where a field does not fit,
reading ends in a misuse that names neither the document nor the place
(`not_refused_of_graph`); where every field fits, it never does (`outcome_of_graph`).

Every part of the reader has one lemma that says so of it (`Answers`). The lemmas are put
together as the reader is: one computation behind another (`Answers.bind`), or one for
each member of a list (`Answers.mapM`).

  §1 Answers  — computations that give a result or say what is malformed.
  §2 Fields   — the types that reading goes through.
  §3 Outcomes — graphs, refusals and misuses.
-/
import GraphShapes.Document.Source
import GraphShapes.Proofs.DocumentTheorems
import GraphShapes.Proofs.SourceTheorems

namespace GraphShapes.Document

variable {α β : Type} {p q : Prop} {r : Except Fault α} {f : Fault}

/-! ## §1 Answers -/

/-- How reading stops: it says what is malformed, or something does not fit. -/
inductive Refused (fits : Prop) : Fault → Prop
  | malformed {e : ValidationError} (code : e.code = "EPARSE") : Refused fits (.validation e)
  | misfit {m : Misuse} (unfit : ¬ fits) : Refused fits (.misuse m)

/-- A computation gives a result or is refused. -/
def Answers (fits : Prop) (r : Except Fault α) : Prop := ∀ f, r = .error f → Refused fits f

theorem Refused.mono (h : Refused p f) (hpq : q → p) : Refused q f := by
  cases h with
  | malformed code => exact .malformed code
  | misfit unfit => exact .misfit fun hq => unfit (hpq hq)

theorem Answers.mono (h : Answers p r) (hpq : q → p) : Answers q r :=
  fun f hf => (h f hf).mono hpq

theorem answers_ok (p : Prop) (a : α) : Answers p (.ok a : Except Fault α) := nofun

theorem answers_malformed (p : Prop) {e : ValidationError} (code : e.code = "EPARSE") :
    Answers p (.error (.validation e) : Except Fault α) := fun f hf => by
  cases hf
  exact .malformed code

theorem answers_misfit (unfit : ¬ p) (m : Misuse) :
    Answers p (.error (.misuse m) : Except Fault α) := fun f hf => by
  cases hf
  exact .misfit unfit

theorem answers_ofMisuse (r : Except Misuse α) : Answers (∃ a, r = .ok a) (Fault.ofMisuse r) := by
  cases r with
  | ok a => exact answers_ok _ a
  | error m => exact answers_misfit (fun ⟨_, ha⟩ => by cases ha) m

/-- One computation behind another. -/
theorem Answers.bind {k : α → Except Fault β} (h : Answers p r)
    (hk : ∀ a, r = .ok a → Answers p (k a)) : Answers p (r >>= k) := by
  cases r with
  | ok a => exact hk a rfl
  | error f => exact fun f' hf' => h f' (by cases hf'; rfl)

/-- A computation for each member of a list. -/
theorem Answers.mapM {P : α → Prop} {k : α → Except Fault β} (h : ∀ x, Answers (P x) (k x))
    (xs : List α) : Answers (∀ x ∈ xs, P x) (xs.mapM k) := by
  induction xs with
  | nil => exact answers_ok _ _
  | cons x xs ih =>
    rw [List.mapM_cons]
    refine .bind ((h x).mono fun hall => hall x List.mem_cons_self) fun y _ => ?_
    refine .bind (ih.mono fun hall z hz => hall z (List.mem_cons_of_mem x hz)) fun ys _ => ?_
    exact answers_ok _ _

/-! ## §2 Fields -/

/-- Metadata that can be copied: a keyed container, or pairs with keys. -/
inductive FitsMetadata : Datum → Prop
  | keyed (es : List (Datum × Datum)) : FitsMetadata (.dict es)
  | pairs {d : Datum} {ds : List Datum} (row : d.yields = .ok ds)
      (pairs : ∀ pair ∈ ds, ∃ k v name, pair.yields = .ok [k, v] ∧ Name.ofDatum? k = some name) :
      FitsMetadata d

/-- The sizes and the element type of a tensor description make an array. -/
def FitsAttribute (d : Datum) : Prop :=
  ∀ es spec sizes, d = .dict es → Datum.lookup es "tensor" = some (.dict spec) →
    Datum.lookup spec "shape" = some (.list sizes) →
      ∃ array, toArray (fieldOr spec "dtype" (.text Element.float32.name)) sizes = .ok array

/-- A node without an operator, or one with names, and attributes under names. -/
inductive FitsNode : Datum → Prop
  | unnamed {raw : Datum} (unnamed : namesOperator raw = .ok false) : FitsNode raw
  | fields {es attributes : List (Datum × Datum)}
      (inputs : ∃ names, Lists (fieldOr es "inputs" (.list [])) names)
      (outputs : ∃ names, Lists (fieldOr es "outputs" (.list [])) names)
      (keyed : fieldOr es "attributes" (.dict []) = .dict attributes)
      (settings : ∀ entry ∈ attributes,
        (∃ name, Name.ofDatum? entry.1 = some name) ∧ FitsAttribute entry.2) :
      FitsNode (.dict es)

/-- The fields of a document have the types that reading goes through. -/
structure Fits (es : List (Datum × Datum)) : Prop where
  metadata : FitsMetadata (fieldOr es "metadata" (.dict []))
  values : ∃ specs, fieldOr es "values" (.dict []) = .dict specs ∧
    ∀ entry ∈ specs, ∃ declared, DeclaresEntry entry declared
  nodes : ∃ raws, (fieldOr es "nodes" (.list [])).yields = .ok raws ∧ ∀ raw ∈ raws, FitsNode raw
  inputs : ∃ names, Lists (fieldOr es "inputs" (.list [])) names
  outputs : ∃ names, Lists (fieldOr es "outputs" (.list [])) names

variable {es : List (Datum × Datum)} {d raw : Datum} {g : Graph}

theorem answers_entries (d : Datum) : Answers (∃ es, d = .dict es) (entries d) := by
  cases d with
  | dict es => exact answers_ok _ es
  | _ => exact answers_misfit (fun ⟨_, h⟩ => by cases h) _

theorem answers_items (d : Datum) : Answers (∃ ds, d.yields = .ok ds) (items d) :=
  answers_ofMisuse _

theorem answers_toName (d : Datum) : Answers (∃ name, Name.ofDatum? d = some name) (toName d) := by
  unfold toName
  cases Name.ofDatum? d with
  | some name => exact answers_ok _ name
  | none => exact answers_misfit (fun ⟨_, h⟩ => by cases h) _

/-- The items of a list of names are gone through, and then the names. -/
theorem answers_items_of_lists (d : Datum) : Answers (∃ names, Lists d names) (items d) :=
  (answers_items d).mono fun ⟨_, ds, hds, _⟩ => ⟨ds, hds⟩

theorem answers_names_of_lists {ds : List Datum} (h : items d = .ok ds) :
    Answers (∃ names, Lists d names) (ds.mapM toName) := by
  refine (Answers.mapM answers_toName ds).mono ?_
  rintro ⟨names, ds', hds', hnames⟩ item hitem
  rw [items_eq_ok_iff.mp h] at hds'
  cases hds'
  obtain ⟨name, -, hname⟩ := exists_of_forall₂_of_mem hnames.flip hitem
  exact ⟨name, hname⟩

theorem answers_toPair (pair : Datum) :
    Answers (∃ k v name, pair.yields = .ok [k, v] ∧ Name.ofDatum? k = some name) (toPair pair) := by
  unfold toPair
  refine .bind ((answers_items pair).mono fun ⟨k, v, _, h, _⟩ => ⟨[k, v], h⟩) fun ds hds => ?_
  have hitems := items_eq_ok_iff.mp hds
  split
  · next k v =>
    refine .bind ((answers_toName k).mono ?_) fun name _ => answers_ok _ _
    rintro ⟨k', v', name, hpair, hname⟩
    rw [hitems] at hpair
    cases hpair
    exact ⟨name, hname⟩
  · next hother =>
    refine answers_misfit ?_ _
    rintro ⟨k, v, name, hpair, -⟩
    rw [hitems] at hpair
    cases hpair
    exact hother k v rfl

theorem answers_toMetadata (d : Datum) : Answers (FitsMetadata d) (toMetadata d) := by
  unfold toMetadata
  split
  · exact answers_ok _ _
  · next hkeyed =>
    have hpairs (h : FitsMetadata d) : ∃ ds, d.yields = .ok ds ∧
        ∀ pair ∈ ds, ∃ k v name, pair.yields = .ok [k, v] ∧ Name.ofDatum? k = some name := by
      cases h with
      | keyed es => exact absurd rfl (hkeyed es)
      | pairs row pairs => exact ⟨_, row, pairs⟩
    refine .bind ((answers_items d).mono fun h => ?_) fun ds hds => ?_
    · obtain ⟨ds, hds, -⟩ := hpairs h
      exact ⟨ds, hds⟩
    · refine .bind ((Answers.mapM answers_toPair ds).mono fun h => ?_) fun _ _ => answers_ok _ _
      obtain ⟨ds', hds', hall⟩ := hpairs h
      rw [items_eq_ok_iff.mp hds] at hds'
      cases hds'
      exact hall

theorem answers_toValue (spec : Datum) : Answers (∃ v, Declares spec v) (toValue spec) := by
  refine .bind ((answers_ofMisuse spec.isTruthy).mono ?_) fun truth htruth => ?_
  · rintro ⟨v, hempty | @⟨es, hgiven⟩⟩
    · exact ⟨false, hempty⟩
    · exact ⟨_, rfl⟩
  · have htruthy := mapError_eq_ok_iff.mp htruth
    split
    · next htrue =>
      refine .bind ((answers_entries spec).mono ?_) fun es _ => answers_ok _ _
      rintro ⟨v, hempty | @⟨es, hgiven⟩⟩
      · rw [htrue] at htruthy
        cases hempty.symm.trans htruthy
      · exact ⟨es, rfl⟩
    · exact answers_ok _ _

theorem answers_addValues (es : List (Datum × Datum)) (g : Graph) :
    Answers (∀ entry ∈ es, ∃ declared, DeclaresEntry entry declared) (addValues g es) := by
  induction es generalizing g with
  | nil => exact answers_ok _ g
  | cons entry rest ih =>
    have hentry (h : ∀ e ∈ entry :: rest, ∃ declared, DeclaresEntry e declared) :
        ∃ declared, DeclaresEntry entry declared := h entry List.mem_cons_self
    refine .bind ((answers_toValue entry.2).mono fun h => ?_) fun v _ => ?_
    · obtain ⟨declared, hdeclared⟩ := hentry h
      exact ⟨_, hdeclared.2⟩
    · refine .bind ((answers_toName entry.1).mono fun h => ?_) fun name _ => ?_
      · obtain ⟨declared, hdeclared⟩ := hentry h
        exact ⟨_, hdeclared.1⟩
      · exact (ih _).mono fun h e he => h e (List.mem_cons_of_mem entry he)

theorem answers_toAttribute (d : Datum) : Answers (FitsAttribute d) (toAttribute d) := by
  unfold toAttribute
  split
  · next es =>
    split
    · next spec hspec =>
      unfold toTensor
      split
      · next spec =>
        split
        · next sizes hsizes =>
          exact (answers_ofMisuse _).mono fun h => h es spec sizes rfl hspec hsizes
        · exact answers_malformed _ rfl
      · exact answers_malformed _ rfl
    · exact answers_ok _ _
  · exact answers_ok _ _

theorem answers_toAttributes (es : List (Datum × Datum)) :
    Answers (∀ entry ∈ es, (∃ name, Name.ofDatum? entry.1 = some name) ∧ FitsAttribute entry.2)
      (toAttributes es) := by
  refine Answers.mapM (fun entry => ?_) es
  refine .bind ((answers_toName entry.1).mono And.left) fun name _ => ?_
  exact .bind ((answers_toAttribute entry.2).mono And.right) fun v _ => answers_ok _ _

/-- The parts of a node are gone through in turn. -/
theorem answers_toParts (hnamed : namesOperator raw = .ok true) :
    Answers (FitsNode raw) (toParts raw) := by
  have hfields {es : List (Datum × Datum)} (hraw : raw = .dict es) (h : FitsNode raw) :
      (∃ names, Lists (fieldOr es "inputs" (.list [])) names) ∧
        (∃ names, Lists (fieldOr es "outputs" (.list [])) names) ∧
        ∃ attributes, fieldOr es "attributes" (.dict []) = .dict attributes ∧
          ∀ entry ∈ attributes,
            (∃ name, Name.ofDatum? entry.1 = some name) ∧ FitsAttribute entry.2 := by
    cases h with
    | unnamed unnamed => cases hnamed.symm.trans unnamed
    | fields inputs outputs keyed settings =>
      cases hraw
      exact ⟨inputs, outputs, _, keyed, settings⟩
  unfold toParts
  split
  · next es =>
    refine .bind ((answers_items_of_lists _).mono fun h => (hfields rfl h).1) fun ins hins => ?_
    refine .bind ((answers_items_of_lists _).mono fun h => (hfields rfl h).2.1) fun outs houts => ?_
    refine .bind ((answers_entries _).mono fun h => ?_) fun attributes hkeyed => ?_
    · obtain ⟨-, -, attributes, hkeyed, -⟩ := hfields rfl h
      exact ⟨attributes, hkeyed⟩
    refine .bind ((answers_toAttributes attributes).mono fun h => ?_) fun settings _ => ?_
    · obtain ⟨-, -, attributes', hkeyed', hall⟩ := hfields rfl h
      rw [entries_eq_ok_iff.mp hkeyed] at hkeyed'
      cases hkeyed'
      exact hall
    refine .bind ((answers_names_of_lists hins).mono fun h => (hfields rfl h).1) fun inputs _ => ?_
    refine .bind ((answers_names_of_lists houts).mono fun h => (hfields rfl h).2.1)
      fun outputs _ => ?_
    exact answers_ok _ _
  · next hother =>
    refine answers_misfit (fun h => ?_) _
    cases h with
    | unnamed unnamed => cases hnamed.symm.trans unnamed
    | fields => exact hother _ rfl

theorem answers_toNode (i : Nat) (raw : Datum) : Answers (FitsNode raw) (toNode i raw) := by
  refine .bind ((answers_ofMisuse (namesOperator raw)).mono fun h => ?_) fun named hnamed => ?_
  · cases h with
    | unnamed unnamed => exact ⟨false, unnamed⟩
    | fields => exact ⟨_, rfl⟩
  · split
    · next htrue =>
      rw [htrue] at hnamed
      exact answers_toParts (mapError_eq_ok_iff.mp hnamed)
    · exact answers_malformed _ rfl

theorem answers_addNodes (raws : List Datum) (g : Graph) (i : Nat) :
    Answers (∀ raw ∈ raws, FitsNode raw) (addNodes g i raws) := by
  induction raws generalizing g i with
  | nil => exact answers_ok _ g
  | cons raw rest ih =>
    refine .bind ((answers_toNode i raw).mono fun h => h raw List.mem_cons_self) fun n _ => ?_
    exact (ih _ _).mono fun h raw' hraw' => h raw' (List.mem_cons_of_mem raw hraw')

/-- **Fields.** Where all fields fit, the only way not to read a document is to say what is
malformed. -/
theorem answers_ofFields (es : List (Datum × Datum)) : Answers (Fits es) (ofFields es) := by
  unfold ofFields
  refine .bind ((answers_toMetadata _).mono Fits.metadata) fun metadata _ => ?_
  refine .bind ((answers_entries _).mono fun h => ?_) fun specs hspecs => ?_
  · obtain ⟨specs, hspecs, -⟩ := h.values
    exact ⟨specs, hspecs⟩
  refine .bind ((answers_addValues specs _).mono fun h => ?_) fun g _ => ?_
  · obtain ⟨specs', hspecs', hall⟩ := h.values
    rw [entries_eq_ok_iff.mp hspecs] at hspecs'
    cases hspecs'
    exact hall
  refine .bind ((answers_items _).mono fun h => ?_) fun raws hraws => ?_
  · obtain ⟨raws, hraws, -⟩ := h.nodes
    exact ⟨raws, hraws⟩
  refine .bind ((answers_addNodes raws _ _).mono fun h => ?_) fun g _ => ?_
  · obtain ⟨raws', hraws', hall⟩ := h.nodes
    rw [items_eq_ok_iff.mp hraws] at hraws'
    cases hraws'
    exact hall
  refine .bind ((answers_items_of_lists _).mono Fits.inputs) fun ins hins => ?_
  refine .bind ((answers_items_of_lists _).mono Fits.outputs) fun outs houts => ?_
  refine .bind ((answers_names_of_lists hins).mono Fits.inputs) fun inputs _ => ?_
  refine .bind ((answers_names_of_lists houts).mono Fits.outputs) fun outputs _ => ?_
  exact answers_ok _ _

theorem fitsMetadata_of_toMetadata {metadata : List (Datum × Datum)}
    (h : toMetadata d = .ok metadata) : FitsMetadata d := by
  unfold toMetadata at h
  split at h
  · exact .keyed _
  · obtain ⟨ds, hds, h⟩ := bind_eq_ok_iff.mp h
    obtain ⟨pairs, hpairs, -⟩ := bind_eq_ok_iff.mp h
    refine .pairs (items_eq_ok_iff.mp hds) fun pair hpair => ?_
    obtain ⟨entry, -, hentry⟩ := exists_of_forall₂_of_mem (mapM_eq_ok_iff.mp hpairs).flip hpair
    obtain ⟨parts, hparts, hentry⟩ := bind_eq_ok_iff.mp hentry
    split at hentry
    · next k v =>
      obtain ⟨name, hname, -⟩ := bind_eq_ok_iff.mp hentry
      exact ⟨k, v, name, items_eq_ok_iff.mp hparts, toName_eq_ok_iff.mp hname⟩
    · cases hentry

theorem fitsAttribute_of_toAttribute {v : Datum} (h : toAttribute d = .ok v) :
    FitsAttribute d := by
  rintro es spec sizes rfl htensor hsizes
  rw [toAttribute, htensor] at h
  simp only [toTensor, hsizes] at h
  exact ⟨v, mapError_eq_ok_iff.mp h⟩

theorem Describes.fitsNode {n : Node} (h : Describes raw n) : FitsNode raw := by
  cases h with
  | intro op inputs outputs keyed settings =>
    refine .fields ⟨_, inputs⟩ ⟨_, outputs⟩ keyed fun entry hentry => ?_
    obtain ⟨setting, -, hname, hvalue⟩ := exists_of_forall₂_of_mem settings.flip hentry
    exact ⟨⟨_, hname⟩, fitsAttribute_of_toAttribute hvalue⟩

/-- The fields of a document that was read fit. -/
theorem Reads.fits (h : Reads es g) : Fits es := by
  cases h with
  | intro metadata keyed entries row nodes inputs outputs declares =>
    refine ⟨fitsMetadata_of_toMetadata metadata, ⟨_, keyed, fun entry hentry => ?_⟩,
      ⟨_, row, fun raw hraw => ?_⟩, ⟨_, inputs⟩, ⟨_, outputs⟩⟩
    · obtain ⟨declared, -, hdeclares⟩ := exists_of_forall₂_of_mem entries.flip hentry
      exact ⟨declared, hdeclares⟩
    · obtain ⟨n, -, hdescribes⟩ := exists_of_forall₂_of_mem nodes.flip hraw
      exact hdescribes.fitsNode

/-! ## §3 Outcomes -/

/-- A document as a value, or as a text that is not taken for a path. -/
inductive Source.IsDocument : Source → Prop
  | value (es : List (Datum × Datum)) : IsDocument (.value (.dict es))
  | text {s : String} (inline : isInline s = true) : IsDocument (.value (.text s))

/-- A document that reading does not get through: a field does not fit, a whole number has
too many digits, or containers are nested too deeply. -/
inductive Source.Misfits [Json.Nesting] : Source → Prop
  | value {es : List (Datum × Datum)} (unfit : ¬ Fits es) : Misfits (.value (.dict es))
  | unwritable {es : List (Datum × Datum)} (long : (Datum.dict es).isWritable = false) :
      Misfits (.value (.dict es))
  | text {s : String} {es : List (Datum × Datum)} (read : Json.read s = .ok (.dict es))
      (unfit : ¬ Fits es) : Misfits (.value (.text s))
  | overlong {s : String} (long : Json.read s = .error .overlong) : Misfits (.value (.text s))
  | tooDeep {s : String} (deep : Json.read s = .error .tooDeep) : Misfits (.value (.text s))

/-- The codes of refusals: a malformed document, or a graph that is not valid. -/
def RefusalCode (code : String) : Prop :=
  code = "EPARSE" ∨ code = "EDUP_PRODUCER" ∨ code = "ECYCLE"

/-- What becomes of a document once it is a value. -/
theorem outcome_of_ofDatum (validate : Bool) (es : List (Datum × Datum)) :
    (∃ g, ofDatum validate (.dict es) = .ok g ∧ Fits es) ∨
      (∃ e, ofDatum validate (.dict es) = .error (.validation e) ∧ RefusalCode e.code) ∨
      ∃ m, ofDatum validate (.dict es) = .error (.misuse m) ∧
        (¬ Fits es ∨ (Datum.dict es).isWritable = false) := by
  cases hread : ofFields es with
  | error f =>
    have hdatum : ofDatum validate (.dict es) = .error f := by
      rw [ofDatum, hread, error_bind]
    rw [hdatum]
    cases answers_ofFields es f hread with
    | malformed code => exact .inr (.inl ⟨_, rfl, .inl code⟩)
    | misfit unfit => exact .inr (.inr ⟨_, rfl, .inl unfit⟩)
  | ok g =>
    have hfits := (reads_of_ofFields hread).fits
    have hunchecked : ofDatum false (.dict es) = .ok g := by
      rw [ofDatum, hread, ok_bind]
      rfl
    cases validate with
    | false => exact .inl ⟨g, hunchecked, hfits⟩
    | true =>
      obtain hchecked | ⟨e, hsettled, hcode, htold⟩ := checked_of_ofDatum hunchecked
      · exact .inl ⟨g, hchecked, hfits⟩
      · cases hwritable : (Datum.dict es).isWritable with
        | true => exact .inr (.inl ⟨e, htold hwritable, .inr hcode⟩)
        | false =>
          rw [hsettled, Fault.settled]
          split
          · exact .inr (.inl ⟨e, rfl, .inr hcode⟩)
          · exact .inr (.inr ⟨_, rfl, .inr rfl⟩)

theorem ofText_cases [Json.Nesting] (s : String) :
    (∃ d, Json.read s = .ok d ∧ ofText s = .ok d) ∨
      (∃ e, ofText s = .error (.validation (.notJson e))) ∨
      ∃ m, ofText s = .error (.misuse m) ∧ Source.Misfits (.value (.text s)) := by
  cases hread : Json.read s with
  | ok d => exact .inl ⟨d, rfl, by rw [ofText, hread]⟩
  | error failure =>
    cases failure with
    | malformed e => exact .inr (.inl ⟨e, by rw [ofText, hread]⟩)
    | overlong => exact .inr (.inr ⟨_, by rw [ofText, hread], .overlong hread⟩)
    | tooDeep => exact .inr (.inr ⟨_, by rw [ofText, hread], .tooDeep hread⟩)

/-- **Outcomes.** A document is a graph and its fields fit, or it is refused as malformed
or as a graph that is not valid, or it is one that reading does not get through. -/
theorem outcome_of_graph [Json.Nesting] {s : Source} (files : Files) (validate : Bool)
    (hs : s.IsDocument) :
    (∃ g es, load files s = .ok (.dict es) ∧ Fits es ∧ graph files validate s = .ok g) ∨
      (∃ e, graph files validate s = .error (.validation e) ∧ RefusalCode e.code) ∨
      ∃ m, graph files validate s = .error (.misuse m) ∧ s.Misfits := by
  cases hs with
  | value es =>
    obtain ⟨g, hg, hfits⟩ | hrefused | ⟨m, hm, hunfit | hlong⟩ := outcome_of_ofDatum validate es
    · exact .inl ⟨g, es, rfl, hfits, hg⟩
    · exact .inr (.inl hrefused)
    · exact .inr (.inr ⟨m, hm, .value hunfit⟩)
    · exact .inr (.inr ⟨m, hm, .unwritable hlong⟩)
  | @text s inline =>
    have hload : load files (.value (.text s)) = ofText s := by
      rw [load, if_pos inline]
    rw [graph, hload]
    obtain ⟨d, hread, htext⟩ | ⟨e, htext⟩ | ⟨m, htext, hmisfits⟩ := ofText_cases s
    · rw [htext, ok_bind]
      cases d with
      | dict es =>
        obtain ⟨g, hg, hfits⟩ | hrefused | ⟨m, hm, hunfit | hlong⟩ :=
          outcome_of_ofDatum validate es
        · exact .inl ⟨g, es, rfl, hfits, hg⟩
        · exact .inr (.inl hrefused)
        · exact .inr (.inr ⟨m, hm, .text hread hunfit⟩)
        · rw [isWritable_of_ofText htext] at hlong
          cases hlong
      | _ => exact .inr (.inl ⟨_, rfl, .inl rfl⟩)
    · rw [htext]
      exact .inr (.inl ⟨_, rfl, .inl rfl⟩)
    · rw [htext]
      exact .inr (.inr ⟨m, rfl, hmisfits⟩)

/-- A document with null in the place of a node. -/
def headless : String := "\x7b\"nodes\": [null]\x7d"

theorem graph_headless (validate : Bool) :
    graph {} validate (.value (.text headless)) = .error (.misuse .wrongKind) := by
  cases validate <;> rfl

/-- **Not every document is refused in so many words.** A node that is no container ends the
reading as a value of the wrong kind. -/
theorem not_refused_of_graph :
    ¬ ∀ (files : Files) (validate : Bool) (s : Source), s.IsDocument →
      (∃ g, graph files validate s = .ok g) ∨
        ∃ e, graph files validate s = .error (.validation e) := by
  intro h
  obtain ⟨g, hg⟩ | ⟨e, he⟩ := h {} true (.value (.text headless)) (.text (by decide +kernel))
  · cases (graph_headless true).symm.trans hg
  · cases (graph_headless true).symm.trans he

/-- That is because its one node does not fit. -/
theorem misfits_headless : (Source.value (.text headless)).Misfits := by
  obtain ⟨g, -, -, -, hg⟩ | ⟨e, he, -⟩ | ⟨m, -, hmisfits⟩ :=
    outcome_of_graph (s := .value (.text headless)) {} true (.text (by decide +kernel))
  · cases (graph_headless true).symm.trans hg
  · cases (graph_headless true).symm.trans he
  · exact hmisfits

end GraphShapes.Document
