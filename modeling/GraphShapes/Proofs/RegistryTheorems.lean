/-
GraphShapes.Proofs.RegistryTheorems — what a row of registrations leaves behind.

A component is kept under the text `kind:name`, and by that text alone it is found: what is
found is what was registered last under the text (`get?_ofList`), whatever its kind. A listing
goes by the kind that a component carries, so it has the names that find a component of that
very kind (`mem_names_ofList`).

For one kind the registry is then a map by names exactly if its names find nothing of another
kind (`isMapOn_iff`). A text with one colon comes from one kind and one name, but one with more
can be taken apart in several ways, and what is registered under it is found under kinds that
nobody named. So the registry is a map by kinds and names exactly if no colon comes up in what
is registered (`registered_under_key`).

  §1 Entries       — putting an entry among others, and searching.
  §2 Keys          — the texts of kinds and names, and when two are the same.
  §3 Registrations — what a text finds, after each registration and after all of them.
  §4 Listings      — the names of a kind.
  §5 Maps          — when a registry goes by kinds and names.
-/
import GraphShapes.Registry
import Mathlib.Data.List.Basic
import Mathlib.Data.List.Induction
import Mathlib.Data.List.Sort
import Mathlib.Data.String.Basic

namespace GraphShapes

/-! ## §1 Entries -/

section Entries

variable {κ β : Type} [BEq κ] [LawfulBEq κ] {fields : List (κ × β)} {k k' : κ} {b b' : β}

/-- Where no key comes twice, what a key finds is its entry. -/
theorem lookup_eq_some_iff_mem (h : (fields.map Prod.fst).Nodup) :
    fields.lookup k = some b ↔ (k, b) ∈ fields := by
  induction fields with
  | nil => simp
  | cons field fields ih =>
    obtain ⟨l, old⟩ := field
    rw [List.map_cons, List.nodup_cons] at h
    by_cases hk : k = l
    · subst hk
      have hnot : (k, b) ∉ fields := by
        intro hmem
        exact h.1 (List.mem_map.mpr ⟨(k, b), hmem, rfl⟩)
      simp [hnot, eq_comm]
    · have hne : (k == l) = false := by simpa using hk
      simp [List.lookup_cons, hne, hk, ih h.2]

theorem any_beq_iff : (fields.any fun (l, _) => l == k) = true ↔ k ∈ fields.map Prod.fst := by
  simp only [List.any_eq_true, beq_iff_eq, List.mem_map]

/-- What is put under a key stands beside the entries of the others. -/
theorem mem_putField_iff :
    (k', b') ∈ putField fields k b ↔ k' = k ∧ b' = b ∨ k' ≠ k ∧ (k', b') ∈ fields := by
  have hreplaced (l : κ) (old : β) :
      (if l == k then (l, b) else (l, old)) = (k', b') ↔
        l = k' ∧ (k' = k ∧ b' = b ∨ k' ≠ k ∧ old = b') := by
    by_cases hl : l = k
    · grind
    · grind
  unfold putField
  split
  · next hany =>
    obtain ⟨⟨l, old⟩, hentry, hl⟩ := List.mem_map.mp (any_beq_iff.mp hany)
    simp only [List.mem_map, Prod.exists, hreplaced]
    constructor
    · rintro ⟨_, _, hmem, rfl, hnew | ⟨hne, rfl⟩⟩
      · exact .inl hnew
      · exact .inr ⟨hne, hmem⟩
    · rintro (⟨rfl, rfl⟩ | ⟨hne, hmem⟩)
      · exact ⟨l, old, hentry, hl, .inl ⟨rfl, rfl⟩⟩
      · exact ⟨k', b', hmem, rfl, .inr ⟨hne, rfl⟩⟩
  · next hany =>
    rw [any_beq_iff] at hany
    have hnot : (k', b') ∈ fields → k' ≠ k := by
      rintro hmem rfl
      exact hany (List.mem_map.mpr ⟨(k', b'), hmem, rfl⟩)
    simp only [List.mem_append, List.mem_singleton, Prod.mk.injEq]
    tauto

/-- A key keeps its place, or stands last. -/
theorem nodup_putField (h : (fields.map Prod.fst).Nodup) :
    ((putField fields k b).map Prod.fst).Nodup := by
  unfold putField
  split
  · have hfst (l : κ) (old : β) : (if l == k then (l, b) else (l, old)).1 = l := by
      split <;> rfl
    simpa [List.map_map, Function.comp_def, hfst] using h
  · next hany =>
    rw [any_beq_iff] at hany
    rw [List.map_append, List.nodup_append]
    refine ⟨h, List.nodup_singleton k, ?_⟩
    rintro l hl _ hk rfl
    rw [List.mem_singleton.mp hk] at hl
    exact hany hl

/-- A wider search that finds what the narrower one looks for finds what it would. -/
theorem find?_eq_find?_of_found {p q : β → Bool} {xs : List β}
    (himp : ∀ x, q x = true → p x = true) (hfound : ∀ x, xs.find? p = some x → q x = true) :
    xs.find? p = xs.find? q := by
  induction xs with
  | nil => rfl
  | cons x xs ih =>
    by_cases hp : p x = true
    · have hq := hfound x (by simp [hp])
      simp [hp, hq]
    · have hq : ¬ q x = true := fun hq => hp (himp x hq)
      simp only [List.find?_cons, hp, hq] at hfound ⊢
      exact ih hfound

end Entries

namespace Registry

variable {α : Type} {calls : List (Component α)} {r : Registry α} {c : Component α}
  {kind kind' name name' text : String}

/-! ## §2 Keys -/

theorem toList_key (kind name : String) :
    (key kind name).toList = kind.toList ++ ':' :: name.toList := by
  simp [key]

theorem key_right_inj : key kind name = key kind name' ↔ name = name' := by
  simp [← String.toList_inj, toList_key]

/-- Kinds without colons are told apart by their texts. -/
theorem kind_eq_of_key_eq (hkind : ':' ∉ kind.toList) (hkind' : ':' ∉ kind'.toList)
    (h : key kind name = key kind' name') : kind = kind' := by
  have hfront {kind : String} (name : String) (hplain : ':' ∉ kind.toList) :
      (key kind name).toList.takeWhile (fun c => decide (c ≠ ':')) = kind.toList := by
    have hall : ∀ c ∈ kind.toList, decide (c ≠ ':') = true := by
      intro c hc
      simpa using fun hcolon : c = ':' => hplain (hcolon ▸ hc)
    rw [toList_key, List.takeWhile_append_of_pos hall]
    simp
  rw [← String.toList_inj, ← hfront name hkind, h, hfront name' hkind']

/-- A text with one colon comes from one kind and one name. -/
theorem key_inj_of_plain (hkind : ':' ∉ kind.toList) (hname : ':' ∉ name.toList) :
    key kind' name' = key kind name ↔ kind' = kind ∧ name' = name := by
  rw [eq_comm, ← String.toList_inj, toList_key, toList_key,
    List.append_cons_inj_of_notMem hkind hname, String.toList_inj, String.toList_inj]
  simp [eq_comm]

/-- A text with another colon is that of another kind as well. -/
theorem exists_key_eq (h : ':' ∈ kind.toList ∨ ':' ∈ name.toList) :
    ∃ kind' name', kind' ≠ kind ∧ key kind' name' = key kind name := by
  rcases h with hkind | hname
  · obtain ⟨front, back, hsplit⟩ := List.append_of_mem hkind
    refine ⟨String.ofList front, String.ofList (back ++ ':' :: name.toList), ?_, ?_⟩
    · intro heq
      rw [← heq, String.toList_ofList] at hsplit
      simpa using congrArg List.length hsplit
    · simp [← String.toList_inj, toList_key, hsplit]
  · obtain ⟨front, back, hsplit⟩ := List.append_of_mem hname
    refine ⟨String.ofList (kind.toList ++ ':' :: front), String.ofList back, ?_, ?_⟩
    · intro heq
      simpa using congrArg (fun s => s.toList.length) heq
    · simp [← String.toList_inj, toList_key, hsplit]

/-! ## §3 Registrations -/

/-- The registry after a row of registrations. -/
def ofList (calls : List (Component α)) : Registry α :=
  calls.foldl (fun r c => r.register c.kind c.name c.content) {}

/-- What was registered last under a text. -/
def lastUnder? (calls : List (Component α)) (text : String) : Option (Component α) :=
  calls.reverse.find? fun c => key c.kind c.name == text

/-- What was registered last with a kind and a name. -/
def last? (calls : List (Component α)) (kind name : String) : Option (Component α) :=
  calls.reverse.find? fun c => c.kind == kind && c.name == name

theorem lastUnder?_concat (calls : List (Component α)) (c : Component α) (text : String) :
    lastUnder? (calls ++ [c]) text
      = if key c.kind c.name = text then some c else lastUnder? calls text := by
  by_cases htext : key c.kind c.name = text
  · simp [lastUnder?, htext]
  · simp [lastUnder?, htext]

theorem of_lastUnder? (h : lastUnder? calls text = some c) :
    c ∈ calls ∧ key c.kind c.name = text := by
  constructor
  · simpa using List.mem_of_find?_eq_some h
  · simpa using List.find?_some h

theorem exists_lastUnder? (h : c ∈ calls) :
    ∃ c', lastUnder? calls (key c.kind c.name) = some c' := by
  rw [← Option.isSome_iff_exists, lastUnder?, List.find?_isSome]
  exact ⟨c, by simpa using h, by simp⟩

/-- A registry holds what was registered last under each text. -/
structure Holds (r : Registry α) (calls : List (Component α)) : Prop where
  nodup : (r.entries.map Prod.fst).Nodup
  mem_iff : ∀ text c, (text, c) ∈ r.entries ↔ lastUnder? calls text = some c

theorem Holds.register (h : Holds r calls) (c : Component α) :
    Holds (r.register c.kind c.name c.content) (calls ++ [c]) where
  nodup := nodup_putField h.nodup
  mem_iff text c' := by
    rw [Registry.register, mem_putField_iff, lastUnder?_concat, h.mem_iff]
    by_cases htext : key c.kind c.name = text
    · simp [htext, @eq_comm _ c']
    · simp [htext, Ne.symm htext]

/-- By induction on the registrations, from the last one back. -/
theorem holds_ofList (calls : List (Component α)) : Holds (ofList calls) calls := by
  induction calls using List.reverseRecOn with
  | nil => exact ⟨List.nodup_nil, by simp [ofList, lastUnder?]⟩
  | append_singleton calls c ih =>
    have hlast : ofList (calls ++ [c]) = (ofList calls).register c.kind c.name c.content := by
      simp [ofList]
    rw [hlast]
    exact ih.register c

/-- **Look-ups.** What is found is what was registered last under the text. -/
theorem get?_ofList (calls : List (Component α)) (kind name : String) :
    (ofList calls).get? kind name = lastUnder? calls (key kind name) := by
  have h := holds_ofList calls
  ext c
  rw [get?, lookup_eq_some_iff_mem h.nodup, h.mem_iff]

theorem create_ofList (calls : List (Component α)) (kind name : String) :
    (ofList calls).create kind name = (lastUnder? calls (key kind name)).elim
      (.error (.componentMissing kind name)) (.ok ·.content) := by
  rw [create, get?_ofList]
  cases lastUnder? calls (key kind name) <;> rfl

/-! ## §4 Listings -/

theorem mem_names_iff :
    name ∈ r.names kind ↔ ∃ c, (∃ text, (text, c) ∈ r.entries) ∧ c.kind = kind ∧ c.name = name := by
  simp [names, and_assoc]

/-- **Listings.** A kind has the names that find a component of that kind. -/
theorem mem_names_ofList (calls : List (Component α)) (kind name : String) :
    name ∈ (ofList calls).names kind ↔
      ∃ c, lastUnder? calls (key kind name) = some c ∧ c.kind = kind := by
  rw [mem_names_iff]
  constructor
  · rintro ⟨c, ⟨text, hentry⟩, rfl, rfl⟩
    have hlast := ((holds_ofList calls).mem_iff text c).mp hentry
    rw [(of_lastUnder? hlast).2]
    exact ⟨c, hlast, rfl⟩
  · rintro ⟨c, hlast, rfl⟩
    exact ⟨c, ⟨_, ((holds_ofList calls).mem_iff _ c).mpr hlast⟩, rfl,
      key_right_inj.mp (of_lastUnder? hlast).2⟩

/-- Components of one kind with one name would be under one text, and a text has one entry. -/
theorem Holds.nodup_names (h : Holds r calls) (kind : String) : (r.names kind).Nodup := by
  have hentry {text : String} {c : Component α} (hmem : (text, c) ∈ r.entries) :
      key c.kind c.name = text :=
    (of_lastUnder? ((h.mem_iff text c).mp hmem)).2
  have hdistinct := List.pairwise_map.mp h.nodup
  rw [names, (List.mergeSort_perm _ _).nodup_iff, List.Nodup, List.pairwise_map,
    List.pairwise_filter, List.pairwise_map]
  refine hdistinct.imp_of_mem ?_
  rintro ⟨text, c⟩ ⟨text', c'⟩ hc hc' hne hkind hkind' hname
  apply hne
  rw [beq_iff_eq] at hkind hkind'
  rw [← hentry hc, ← hentry hc', hkind, hkind', hname]

/-- They are in order, and none comes twice. -/
theorem pairwise_names_ofList (calls : List (Component α)) (kind : String) :
    ((ofList calls).names kind).Pairwise (· < ·) := by
  have hsorted : ((ofList calls).names kind).Pairwise (· ≤ ·) :=
    List.pairwise_mergeSort' (· ≤ ·) _
  exact hsorted.imp₂ (fun _ _ hle hne => lt_of_le_of_ne hle hne)
    ((holds_ofList calls).nodup_names kind)

/-! ## §5 Maps -/

/-- For one kind, a registry goes by names: a name finds what was registered last with just
that kind and name, and what the kind has is what was registered with it, in order. -/
structure IsMapOn (calls : List (Component α)) (kind : String) : Prop where
  get? : ∀ name, (ofList calls).get? kind name = last? calls kind name
  create : ∀ name, (ofList calls).create kind name
    = (last? calls kind name).elim (.error (.componentMissing kind name)) (.ok ·.content)
  names : ((ofList calls).names kind).Pairwise (· < ·) ∧
    ∀ name, name ∈ (ofList calls).names kind ↔ ∃ c ∈ calls, c.kind = kind ∧ c.name = name

/-- If the last one under the text has the kind, it is the last one with kind and name. -/
theorem lastUnder?_eq_last? (h : ∀ c, lastUnder? calls (key kind name) = some c → c.kind = kind) :
    lastUnder? calls (key kind name) = last? calls kind name := by
  apply find?_eq_find?_of_found
  · intro c hc
    simp only [Bool.and_eq_true, beq_iff_eq] at hc
    simp [hc]
  · intro c hc
    have hkey := (of_lastUnder? hc).2
    rw [h c hc] at hkey
    simp [h c hc, key_right_inj.mp hkey]

/-- A registry goes by the names of a kind exactly if they find nothing of another kind. -/
theorem isMapOn_iff :
    IsMapOn calls kind ↔ ∀ name c, lastUnder? calls (key kind name) = some c → c.kind = kind := by
  constructor
  · intro h name c hc
    have hlast := h.get? name
    rw [get?_ofList, hc] at hlast
    have hfound := List.find?_some hlast.symm
    simp only [Bool.and_eq_true, beq_iff_eq] at hfound
    exact hfound.1
  · intro h
    refine ⟨fun name => ?_, fun name => ?_, pairwise_names_ofList calls kind, fun name => ?_⟩
    · rw [get?_ofList, lastUnder?_eq_last? (h name)]
    · rw [create_ofList, lastUnder?_eq_last? (h name)]
    · rw [mem_names_ofList]
      constructor
      · rintro ⟨c, hc, rfl⟩
        obtain ⟨hmem, hkey⟩ := of_lastUnder? hc
        exact ⟨c, hmem, rfl, key_right_inj.mp hkey⟩
      · rintro ⟨c, hmem, rfl, rfl⟩
        obtain ⟨c', hc'⟩ := exists_lastUnder? hmem
        exact ⟨c', hc', h c.name c' hc'⟩

/-- Kinds without colons do not meet. -/
theorem isMapOn_of_plain_kinds (hkind : ':' ∉ kind.toList)
    (hcalls : ∀ c ∈ calls, ':' ∉ c.kind.toList) : IsMapOn calls kind := by
  rw [isMapOn_iff]
  intro name c hc
  obtain ⟨hmem, hkey⟩ := of_lastUnder? hc
  exact kind_eq_of_key_eq (hcalls c hmem) hkind hkey

/-- A colon in a kind or a name makes two kinds of the text, and only one of them can be that
of the component. -/
theorem forall_isMapOn_iff :
    (∀ kind, IsMapOn calls kind) ↔ ∀ c ∈ calls, ':' ∉ c.kind.toList ∧ ':' ∉ c.name.toList := by
  constructor
  · intro h c hmem
    rw [← not_or]
    intro hcolon
    obtain ⟨kind', name', hne, hkey⟩ := exists_key_eq hcolon
    obtain ⟨c', hc'⟩ := exists_lastUnder? hmem
    have hown := isMapOn_iff.mp (h c.kind) c.name c' hc'
    have hother := isMapOn_iff.mp (h kind') name' c' (hkey ▸ hc')
    exact hne (hother.symm.trans hown)
  · intro h kind
    rw [isMapOn_iff]
    intro name c hc
    obtain ⟨hmem, hkey⟩ := of_lastUnder? hc
    exact ((key_inj_of_plain (h c hmem).1 (h c hmem).2).mp hkey.symm).1.symm

/-- **Registries.** After any row of registrations, a kind and a name find what was registered
last under their text, and a kind lists, in order and each once, the names that find a component
of that kind. So the registry goes by the names of a kind exactly if these find nothing of
another kind, as they do where no kind has a colon; and it goes by all kinds and names, whichever
are asked for, exactly if no colon comes up in what is registered. -/
theorem registered_under_key (calls : List (Component α)) :
    (∀ kind name,
      (ofList calls).get? kind name = lastUnder? calls (key kind name) ∧
      (ofList calls).create kind name = (lastUnder? calls (key kind name)).elim
        (.error (.componentMissing kind name)) (.ok ·.content) ∧
      (name ∈ (ofList calls).names kind ↔
        ∃ c, lastUnder? calls (key kind name) = some c ∧ c.kind = kind)) ∧
    (∀ kind, ((ofList calls).names kind).Pairwise (· < ·) ∧
      (IsMapOn calls kind ↔
        ∀ name c, lastUnder? calls (key kind name) = some c → c.kind = kind) ∧
      (':' ∉ kind.toList → (∀ c ∈ calls, ':' ∉ c.kind.toList) → IsMapOn calls kind)) ∧
    ((∀ kind, IsMapOn calls kind) ↔
      ∀ c ∈ calls, ':' ∉ c.kind.toList ∧ ':' ∉ c.name.toList) := by
  refine ⟨fun kind name => ?_, fun kind => ?_, forall_isMapOn_iff⟩
  · exact ⟨get?_ofList calls kind name, create_ofList calls kind name,
      mem_names_ofList calls kind name⟩
  · exact ⟨pairwise_names_ofList calls kind, isMapOn_iff, isMapOn_of_plain_kinds⟩

/-- What is registered with one kind is found under another one, whose list does not have it. -/
theorem found_under_other_kind :
    (ofList [⟨"a:b", "c", 1⟩]).get? "a" "b:c" = some ⟨"a:b", "c", 1⟩ ∧
      (ofList [⟨"a:b", "c", 1⟩]).names "a" = [] ∧ last? [⟨"a:b", "c", 1⟩] "a" "b:c" = none ∧
      ¬ IsMapOn [⟨"a:b", "c", 1⟩] "a" := by
  have hfound : (ofList [⟨"a:b", "c", 1⟩]).get? "a" "b:c" = some ⟨"a:b", "c", 1⟩ := by rfl
  have hlast : last? [⟨"a:b", "c", 1⟩] "a" "b:c" = none := by rfl
  refine ⟨hfound, by decide +kernel, hlast, ?_⟩
  intro h
  have hsame := h.get? "b:c"
  rw [hfound, hlast] at hsame
  cases hsame

end Registry

end GraphShapes
