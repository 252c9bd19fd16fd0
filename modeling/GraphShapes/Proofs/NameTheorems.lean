/-
GraphShapes.Proofs.NameTheorems — names up to spelling, and look-ups by name.

Two spellings are one name when their keys are equal, so "distinct" and
"among" are statements about keys, and everything here is a fact about lists
of keys.

  §1 Names      — `Distinct`, names of which no two are the same, and
                  `isAmong_iff`.
  §2 Look-ups   — `lookup?_congr` (the spelling of the name asked for does not
                  matter), `lookup?_append` (the entry in front wins),
                  `lookup?_eq_none_iff`, `distinct_append_singleton` for one
                  entry more, and `lookup?_eq_some_iff` for entries with
                  distinct names.
  §3 Pairing    — `map_lookup?_zip`: names paired with values are found again
                  in order. The walk over a graph writes its results that way.
  §4 Entering   — `lookup?_putEntry`: what is put under a name is found there,
                  and everything else as before; `names_putEntry`: an entry
                  keeps its place, or stands last.
-/
import GraphShapes.Name
import Mathlib.Data.List.Nodup
import Mathlib.Data.List.Perm.Basic

namespace GraphShapes

/-! ## §1 Names -/

namespace Name

/-- Names of which no two are the same. -/
def Distinct (names : List Name) : Prop := (names.map key).Nodup

instance (names : List Name) : Decidable (Distinct names) :=
  inferInstanceAs (Decidable (names.map key).Nodup)

theorem distinct_nil : Distinct [] := List.nodup_nil

theorem distinct_cons {name : Name} {names : List Name} :
    Distinct (name :: names) ↔ name.key ∉ names.map key ∧ Distinct names := by
  simp only [Distinct, List.map_cons, List.nodup_cons]

theorem distinct_append {as bs : List Name} :
    Distinct (as ++ bs) ↔
      Distinct as ∧ Distinct bs ∧ ∀ name ∈ as, name.key ∉ bs.map key := by
  simp only [Distinct, List.map_append, List.nodup_append', List.disjoint_left,
    List.forall_mem_map]

theorem Distinct.perm {as bs : List Name} (h : as.Perm bs) (ha : Distinct as) : Distinct bs :=
  (h.map key).nodup_iff.mp ha

theorem Distinct.sublist {as bs : List Name} (h : as.Sublist bs) (hb : Distinct bs) :
    Distinct as :=
  List.Nodup.sublist (h.map key) hb

/-- A name is among the names when one of them has its key. -/
theorem isAmong_iff {name : Name} {names : List Name} :
    name.isAmong names = true ↔ name.key ∈ names.map key := by
  simp only [isAmong, List.any_eq_true, same_iff, List.mem_map]

theorem isAmong_of_mem {name : Name} {names : List Name} (h : name ∈ names) :
    name.isAmong names = true :=
  isAmong_iff.mpr (List.mem_map_of_mem h)

theorem isAmong_congr {a b : Name} {names : List Name} (h : a.key = b.key) :
    a.isAmong names = b.isAmong names := by
  simp only [isAmong, same, h]

theorem isAmong_perm {name : Name} {as bs : List Name} (h : as.Perm bs) :
    name.isAmong as = true ↔ name.isAmong bs = true := by
  rw [isAmong_iff, isAmong_iff]
  exact (h.map key).mem_iff

theorem isAmong_append {name : Name} {as bs : List Name} :
    name.isAmong (as ++ bs) = true ↔ name.isAmong as = true ∨ name.isAmong bs = true := by
  simp only [isAmong_iff, List.map_append, List.mem_append]

theorem isAmong_of_subset {name : Name} {as bs : List Name} (hsub : as ⊆ bs)
    (h : name.isAmong as = true) : name.isAmong bs = true := by
  rw [isAmong_iff] at h ⊢
  exact List.map_subset key hsub h

theorem isAmong_flatMap {α : Type} {name : Name} {f : α → List Name} {xs : List α} :
    name.isAmong (xs.flatMap f) = true ↔ ∃ x ∈ xs, name.isAmong (f x) = true := by
  simp only [isAmong_iff, List.map_flatMap, List.mem_flatMap]

theorem same_comm (a b : Name) : a.same b = b.same a := by
  rw [same, same, Bool.beq_comm]

/-- A name is another than those it is not among. -/
theorem same_eq_false {name other : Name} {names : List Name} (h : name.isAmong names = false)
    (hother : other.isAmong names = true) : name.same other = false := by
  rw [← Bool.not_eq_true, same_iff]
  intro hkey
  rw [isAmong_congr hkey, hother] at h
  cases h

/-- Distinct names stay so with one more that is none of them. -/
theorem Distinct.concat {name : Name} {names : List Name} (hd : Distinct names)
    (h : name.isAmong names = false) : Distinct (names ++ [name]) := by
  refine distinct_append.mpr ⟨hd, distinct_cons.mpr ⟨List.not_mem_nil, distinct_nil⟩, ?_⟩
  intro other hother hmem
  have hkey : other.key = name.key := List.mem_singleton.mp hmem
  rw [← isAmong_congr hkey, isAmong_of_mem hother] at h
  cases h

/-- Of names that are distinct, none of the first is among the others. -/
theorem Distinct.not_isAmong {as bs : List Name} (hd : Distinct (as ++ bs)) {name : Name}
    (h : name.isAmong as = true) : name.isAmong bs = false := by
  rw [← Bool.not_eq_true, isAmong_iff]
  obtain ⟨a, ha, hkey⟩ := List.mem_map.mp (isAmong_iff.mp h)
  rw [← hkey]
  exact (distinct_append.mp hd).2.2 a ha

/-- One more name stands last in the order of first occurrence, unless it came up before. -/
theorem eraseDups_concat (ks : List Name) (k : Name) :
    (ks ++ [k]).eraseDups = if k ∈ ks then ks.eraseDups else ks.eraseDups ++ [k] := by
  rw [List.eraseDups_append]
  by_cases hknown : k ∈ ks
  · simp [List.removeAll, hknown]
  · rw [if_neg hknown]
    simp [List.removeAll, hknown, List.eraseDups_cons]

end Name

/-! ## §2 Look-ups -/

section Lookup

variable {α : Type} {entries more : List (Name × α)} {name : Name} {a : α}

/-- Spellings of one name find the same entry. -/
theorem lookup?_congr (entries : List (Name × α)) {a b : Name} (h : a.key = b.key) :
    lookup? entries a = lookup? entries b := by
  simp only [lookup?, Name.same, h]

/-- An entry in front wins. -/
theorem lookup?_append (entries more : List (Name × α)) (name : Name) :
    lookup? (entries ++ more) name = (lookup? entries name).or (lookup? more name) := by
  simp only [lookup?, List.find?_append, Option.map_or]

theorem lookup?_eq_none_iff :
    lookup? entries name = none ↔ name.key ∉ (entries.map Prod.fst).map Name.key := by
  induction entries with
  | nil => simp
  | cons entry rest ih =>
    obtain ⟨n, a⟩ := entry
    rw [lookup?_cons, List.map_cons, List.map_cons, List.mem_cons, not_or, ← ih]
    by_cases hsame : n.same name = true
    · simp [hsame, (Name.same_iff.mp hsame).symm]
    · have hne : ¬ name.key = n.key := fun hkey => hsame (Name.same_iff.mpr hkey.symm)
      simp [hsame, hne]

theorem exists_lookup?_iff :
    (∃ a, lookup? entries name = some a) ↔ name.isAmong (entries.map Prod.fst) = true := by
  rw [← Option.ne_none_iff_exists', Ne, lookup?_eq_none_iff, not_not, Name.isAmong_iff]

/-- Names stay distinct with one more entry if its name has none yet. -/
theorem distinct_append_singleton :
    Name.Distinct ((entries ++ [(name, a)]).map Prod.fst) ↔
      Name.Distinct (entries.map Prod.fst) ∧ lookup? entries name = none := by
  rw [List.map_append, Name.distinct_append, lookup?_eq_none_iff]
  constructor
  · intro ⟨hentries, _, hfresh⟩
    refine ⟨hentries, fun hmem => ?_⟩
    obtain ⟨n, hn, hkey⟩ := List.mem_map.mp hmem
    exact hfresh n hn (by simp [hkey])
  · intro ⟨hentries, hfresh⟩
    refine ⟨hentries, Name.distinct_cons.mpr ⟨by simp, Name.distinct_nil⟩, ?_⟩
    intro n hn hkey
    have hkey' : n.key = name.key := by simpa using hkey
    exact hfresh (hkey' ▸ List.mem_map_of_mem hn)

/-- What is found is listed, under a spelling of the name. -/
theorem exists_of_lookup? (h : lookup? entries name = some a) :
    ∃ n, (n, a) ∈ entries ∧ n.key = name.key := by
  induction entries with
  | nil => cases h
  | cons entry rest ih =>
    obtain ⟨n, b⟩ := entry
    rw [lookup?_cons] at h
    split at h
    · next hsame =>
      cases h
      exact ⟨n, List.mem_cons_self, Name.same_iff.mp hsame⟩
    · obtain ⟨m, hmem, hkey⟩ := ih h
      exact ⟨m, List.mem_cons_of_mem _ hmem, hkey⟩

/-- What is listed under distinct names is found. -/
theorem lookup?_of_mem (hd : Name.Distinct (entries.map Prod.fst)) {n : Name}
    (hmem : (n, a) ∈ entries) (hkey : n.key = name.key) : lookup? entries name = some a := by
  induction entries with
  | nil => cases hmem
  | cons entry rest ih =>
    obtain ⟨m, b⟩ := entry
    rw [List.map_cons, Name.distinct_cons] at hd
    rw [lookup?_cons]
    rcases List.mem_cons.mp hmem with heq | htail
    · cases heq
      rw [if_pos (Name.same_iff.mpr hkey)]
    · -- The entry in front has another name, or its key would occur twice.
      have hne : ¬ m.same name = true := by
        intro hsame
        apply hd.1
        rw [Name.same_iff.mp hsame, ← hkey]
        exact List.mem_map_of_mem (List.mem_map_of_mem htail)
      rw [if_neg hne]
      exact ih hd.2 htail

theorem lookup?_eq_some_iff (hd : Name.Distinct (entries.map Prod.fst)) :
    lookup? entries name = some a ↔ ∃ n, (n, a) ∈ entries ∧ n.key = name.key :=
  ⟨exists_of_lookup?, fun ⟨_, hmem, hkey⟩ => lookup?_of_mem hd hmem hkey⟩

/-- Appending entries never changes what is found. -/
theorem lookup?_append_of_some (h : lookup? entries name = some a) :
    lookup? (entries ++ more) name = some a := by
  rw [lookup?_append, h, Option.some_or]

theorem lookup?_append_of_none (h : lookup? entries name = none) :
    lookup? (entries ++ more) name = lookup? more name := by
  rw [lookup?_append, h, Option.none_or]

/-! ## §3 Pairing -/

/-- Distinct names paired with values are found with their values. -/
theorem map_lookup?_zip : ∀ {names : List Name} {as : List α},
    Name.Distinct names → names.length = as.length →
      names.map (lookup? (names.zip as)) = as.map some
  | [], [], _, _ => rfl
  | name :: names, a :: as, hd, hlen => by
    rw [Name.distinct_cons] at hd
    have ih := map_lookup?_zip hd.2 (Nat.succ.inj hlen)
    -- No later name reads the entry in front.
    have hrest : names.map (lookup? ((name, a) :: names.zip as))
        = names.map (lookup? (names.zip as)) := by
      apply List.map_congr_left
      intro n hn
      rw [lookup?_cons, if_neg]
      intro hsame
      exact hd.1 (Name.same_iff.mp hsame ▸ List.mem_map_of_mem hn)
    rw [List.zip_cons_cons, List.map_cons, List.map_cons, hrest, ih, lookup?_cons,
      if_pos (Name.same_iff.mpr rfl)]

/-! ## §4 Entering -/

/-- Respelling the names of entries changes nothing that is found. -/
theorem lookup?_map_respell {f : Name × α → Name} (hf : ∀ entry, (f entry).key = entry.1.key) :
    lookup? (entries.map fun entry => (f entry, entry.2)) name = lookup? entries name := by
  induction entries with
  | nil => rfl
  | cons entry rest ih =>
    obtain ⟨n, a⟩ := entry
    have hsame : (f (n, a)).same name = n.same name := by simp only [Name.same, hf (n, a)]
    rw [List.map_cons, lookup?_cons, lookup?_cons, ih, hsame]

/-- A change of the values that does not depend on the spelling of names is a change of
what is found. -/
theorem lookup?_map_value {β : Type} {f : Name → α → β}
    (hf : ∀ {m n : Name} (a : α), m.same n = true → f m a = f n a) :
    lookup? (entries.map fun entry => (entry.1, f entry.1 entry.2)) name
      = (lookup? entries name).map (f name) := by
  induction entries with
  | nil => rfl
  | cons entry rest ih =>
    obtain ⟨n, a⟩ := entry
    rw [List.map_cons, lookup?_cons, lookup?_cons, ih]
    split
    · next hsame => rw [Option.map_some, hf a hsame]
    · rfl

/-- What is put under a name is found there, and all else is found as before. -/
theorem lookup?_putEntry (entries : List (Name × α)) (name : Name) (a : α) (n : Name) :
    lookup? (putEntry entries name a) n = if name.same n then some a else lookup? entries n := by
  unfold putEntry
  -- The test for an entry of the name is the look-up of one.
  rw [← List.isSome_find?, ← Option.isSome_map (f := Prod.snd)]
  change lookup? (if (lookup? entries name).isSome = true then _ else _) n = _
  cases hfound : lookup? entries name with
  | some b =>
    let replaced (m : Name) (old : α) : α := if m.same name then a else old
    have hcongr {m n : Name} (old : α) (hmn : m.same n = true) :
        replaced m old = replaced n old := by
      have hsame : m.same name = n.same name := by simp only [Name.same, Name.same_iff.mp hmn]
      exact if_congr (by rw [hsame]) rfl rfl
    rw [Option.isSome_some, if_pos rfl]
    refine (congrArg (lookup? · n) (List.map_congr_left fun entry _ =>
      (apply_ite (Prod.mk entry.1) _ _ _).symm)).trans ?_
    refine (lookup?_map_value (f := replaced) hcongr).trans ?_
    by_cases hsame : name.same n = true
    · rw [if_pos hsame, ← lookup?_congr entries (Name.same_iff.mp hsame), hfound,
        Option.map_some]
      exact congrArg some (if_pos (Name.same_iff.mpr (Name.same_iff.mp hsame).symm))
    · have hother : ¬ n.same name = true :=
        fun h => hsame (Name.same_iff.mpr (Name.same_iff.mp h).symm)
      have hkeep : replaced n = id := funext fun old => if_neg hother
      rw [if_neg hsame, hkeep, Option.map_id_fun, id]
  | none =>
    rw [Option.isSome_none, if_neg Bool.false_ne_true, lookup?_append, lookup?_cons, lookup?_nil]
    by_cases hsame : name.same n = true
    · rw [← lookup?_congr entries (Name.same_iff.mp hsame), hfound, Option.none_or]
    · rw [if_neg hsame, if_neg hsame, Option.or_none]

/-- An entry that a name has keeps its place and its spelling; a new one stands last. -/
theorem names_putEntry (entries : List (Name × α)) (name : Name) (a : α) :
    (putEntry entries name a).map Prod.fst
      = if name.isAmong (entries.map Prod.fst) then entries.map Prod.fst
        else entries.map Prod.fst ++ [name] := by
  have hany :
      (entries.any fun entry => entry.1.same name) = name.isAmong (entries.map Prod.fst) := by
    rw [Name.isAmong, List.any_map]
    rfl
  unfold putEntry
  change List.map Prod.fst
    (if (entries.any fun entry => entry.1.same name) = true then _ else _) = _
  rw [hany]
  split
  · rw [List.map_map]
    refine List.map_congr_left fun entry _ => ?_
    simp only [Function.comp_apply, apply_ite Prod.fst, ite_self]
  · rw [List.map_append, List.map_singleton]

/-- The same holds if the name is spelled as it is put. -/
theorem lookup?_respellEntry (entries : List (Name × α)) (name : Name) (a : α) (n : Name) :
    lookup? (respellEntry entries name a) n
      = if name.same n then some a else lookup? entries n := by
  rw [← lookup?_putEntry, respellEntry]
  apply lookup?_map_respell (f := fun entry => if entry.1.same name then name else entry.1)
  intro entry
  split
  · next hsame => exact (Name.same_iff.mp hsame).symm
  · rfl

end Lookup

end GraphShapes
