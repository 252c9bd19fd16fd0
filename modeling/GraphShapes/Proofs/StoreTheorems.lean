/-
GraphShapes.Proofs.StoreTheorems — what writing does to a store.

A store is `Valid` when no two of its entries have one name and every value in
it has a text. Writing keeps a store valid, and writing is possible exactly
where the result is: `fault_writeAll_eq_none_iff` says that entries can be
written to a valid store if and only if the store with the entries appended is
valid, and `store_writeAll` that this is then the store that is left.

A step that stops does so for a reason, and `Consistent` singles out the steps
that do not stop because a value was met too early, too late or twice. Writing
under fresh names is such a step (`consistent_writeAll`), whatever the values.

  §1 Steps   — faults of steps in sequence.
  §2 Stores  — `names`, `Valid`, and validity of a store with an entry more.
  §3 Writing — one entry, then entries in order.
-/
import GraphShapes.Inference.Store
import GraphShapes.Proofs.NameTheorems

namespace GraphShapes

/-! ## §1 Steps -/

/-- A fault that cannot be told becomes a misuse; any other stays what it is. -/
theorem Fault.eq_of_settled_eq {f f' : Fault} (h : f.settled = f') (hf : ∀ m, f' ≠ .misuse m) :
    f = f' := by
  unfold Fault.settled at h
  split at h
  · exact h
  · exact absurd h.symm (hf _)

/-- A fault can be told as a breach of consistency only if it is one. -/
theorem Fault.eq_of_settled_eq_consistency {f : Fault} {c : ConsistencyError}
    (h : f.settled = .consistency c) : f = .consistency c :=
  Fault.eq_of_settled_eq h nofun

namespace Progress

variable {p : Progress} {next : Store → Progress}

/-- Two steps go through when both do. -/
theorem fault_andThen_eq_none_iff :
    (p.andThen next).fault = none ↔ p.fault = none ∧ (next p.store).fault = none := by
  cases h : p.fault with
  | none => simp [h]
  | some f => simp [h]

/-- The step does not stop for a value met too early, too late or twice. -/
def Consistent (p : Progress) : Prop := ∀ c, p.fault ≠ some (.consistency c)

theorem consistent_of_fault_eq_none (h : p.fault = none) : p.Consistent := by
  intro c hc
  rw [h] at hc
  cases hc

theorem consistent_stopped {s : Store} {f : Fault} (h : ∀ c, f ≠ .consistency c) :
    (stopped s f).Consistent := by
  intro c hc
  exact h c (Fault.eq_of_settled_eq_consistency (Option.some.inj hc))

theorem Consistent.andThen (hp : p.Consistent)
    (hnext : p.fault = none → (next p.store).Consistent) : (p.andThen next).Consistent := by
  cases h : p.fault with
  | none =>
    intro c
    rw [fault_andThen h]
    exact hnext h c
  | some f => rwa [andThen_of_fault h]

end Progress

/-! ## §2 Stores -/

namespace Store

variable {s : Store} {name : Name} {m : Meta} {entries : List (Name × Meta)}

/-- The names that have an entry, in the order of writing. -/
def names (s : Store) : List Name := s.map Prod.fst

@[simp] theorem names_nil : names [] = [] := rfl

@[simp] theorem names_append (s t : Store) : names (s ++ t) = names s ++ names t :=
  List.map_append

/-- A name that is not among them has no entry. -/
theorem lookup?_eq_none_of_names (h : name.isAmong s.names = false) : lookup? s name = none := by
  rw [lookup?_eq_none_iff, ← Name.isAmong_iff]
  exact fun hin => Bool.false_ne_true (h.symm.trans hin)

/-- A name without an entry is not among them. -/
theorem isAmong_names_of_lookup? (h : lookup? s name = none) : name.isAmong s.names = false := by
  rw [← Bool.not_eq_true]
  intro hin
  obtain ⟨m, hm⟩ := exists_lookup?_iff.mpr hin
  rw [h] at hm
  cases hm

/-- Names paired with as many values are the names of the pairs. -/
theorem names_zip {ns : List Name} {ms : List Meta} (h : ms.length = ns.length) :
    names (ns.zip ms) = ns :=
  List.map_fst_zip (Nat.le_of_eq h.symm)

/-- Pairs behind a store add their names, in order. -/
theorem names_append_zip {ns : List Name} {ms : List Meta} (h : ms.length = ns.length) :
    names (s ++ ns.zip ms) = names s ++ ns := by
  rw [names_append, names_zip h]

/-- Names that all have an entry have values. -/
theorem exists_metas_of_isAmong {ns : List Name}
    (h : ∀ name ∈ ns, name.isAmong s.names = true) :
    ∃ metas : List Meta, ns.map (lookup? s) = metas.map some := by
  induction ns with
  | nil => exact ⟨[], rfl⟩
  | cons name ns ih =>
    obtain ⟨metas, hmetas⟩ := ih fun n hn => h n (List.mem_cons_of_mem name hn)
    obtain ⟨m, hm⟩ := exists_lookup?_iff.mpr (h name List.mem_cons_self)
    exact ⟨m :: metas, by rw [List.map_cons, List.map_cons, hm, hmetas]⟩

/-- Names that all have values have an entry. -/
theorem isAmong_of_map_eq {ns : List Name} {metas : List Meta}
    (h : ns.map (lookup? s) = metas.map some) : ∀ name ∈ ns, name.isAmong s.names = true := by
  intro name hname
  have hfound : lookup? s name ∈ metas.map some := h ▸ List.mem_map_of_mem hname
  obtain ⟨m, _, hm⟩ := List.mem_map.mp hfound
  exact exists_lookup?_iff.mp ⟨m, hm.symm⟩

/-- No two entries have one name, and every value has a text. -/
structure Valid (s : Store) : Prop where
  distinct : Name.Distinct s.names
  writable : ∀ entry ∈ s, entry.2.isWritable = true

theorem valid_nil : Valid [] := ⟨Name.distinct_nil, fun _ h => nomatch h⟩

/-- What a store was before it grew is valid if the store is. -/
theorem Valid.of_append {t : Store} (h : Valid (s ++ t)) : Valid s :=
  ⟨h.distinct.sublist ((List.sublist_append_left s t).map Prod.fst),
    fun entry he => h.writable entry (List.mem_append_left t he)⟩

/-- One entry more is valid under a fresh name with a value that has a text. -/
theorem valid_append_singleton (hs : s.Valid) :
    Valid (s ++ [(name, m)]) ↔ m.isWritable = true ∧ lookup? s name = none := by
  constructor
  · intro h
    exact ⟨h.writable (name, m) (List.mem_append_right s List.mem_cons_self),
      (distinct_append_singleton.mp h.distinct).2⟩
  · intro ⟨hm, hfresh⟩
    refine ⟨distinct_append_singleton.mpr ⟨hs.distinct, hfresh⟩, ?_⟩
    intro entry he
    rcases List.mem_append.mp he with hold | hnew
    · exact hs.writable entry hold
    · rw [List.mem_singleton.mp hnew]
      exact hm

/-! ## §3 Writing -/

/-- An entry can be written if its value has a text and its name has no entry. -/
theorem fault_write_eq_none_iff (lead : String) :
    (write lead s name m).fault = none ↔ m.isWritable = true ∧ lookup? s name = none := by
  unfold write
  split
  · next hm =>
    split
    · next found => simp [Progress.stopped, found]
    · next missing => simp [hm, missing]
  · next hm => simp [Progress.stopped, hm]

theorem store_write {lead : String} (h : (write lead s name m).fault = none) :
    (write lead s name m).store = s ++ [(name, m)] := by
  obtain ⟨hm, hfresh⟩ := (fault_write_eq_none_iff lead).mp h
  simp only [write, hm, hfresh, if_true]

theorem consistent_write (lead : String) (hfresh : lookup? s name = none) :
    (write lead s name m).Consistent := by
  unfold write
  split
  · simp only [hfresh]
    exact Progress.consistent_of_fault_eq_none rfl
  · exact Progress.consistent_stopped nofun

/-- Entries can be written exactly where the store with them is valid. -/
theorem fault_writeAll_eq_none_iff (lead : String) (hs : s.Valid) :
    (writeAll lead s entries).fault = none ↔ Valid (s ++ entries) := by
  induction entries generalizing s with
  | nil => simp [writeAll, hs]
  | cons entry rest ih =>
    obtain ⟨name, m⟩ := entry
    rw [writeAll, Progress.fault_andThen_eq_none_iff, List.append_cons]
    constructor
    · intro ⟨hwrite, hrest⟩
      have hs' := (valid_append_singleton hs).mpr ((fault_write_eq_none_iff lead).mp hwrite)
      rw [store_write hwrite] at hrest
      exact (ih hs').mp hrest
    · intro h
      have hs' := h.of_append
      have hwrite : (write lead s name m).fault = none :=
        (fault_write_eq_none_iff lead).mpr ((valid_append_singleton hs).mp hs')
      refine ⟨hwrite, ?_⟩
      rw [store_write hwrite]
      exact (ih hs').mpr h

/-- Entries that can be written end up behind the others, in order. -/
theorem store_writeAll {lead : String} (h : (writeAll lead s entries).fault = none) :
    (writeAll lead s entries).store = s ++ entries := by
  induction entries generalizing s with
  | nil => simp [writeAll]
  | cons entry rest ih =>
    obtain ⟨name, m⟩ := entry
    rw [writeAll, Progress.fault_andThen_eq_none_iff] at h
    obtain ⟨hwrite, hrest⟩ := h
    rw [writeAll, Progress.store_andThen hwrite, ih hrest, store_write hwrite]
    simp

/-- Whether one entry could be written or not, it is all that may be new. -/
theorem store_write_cases (lead : String) (s : Store) (name : Name) (m : Meta) :
    (write lead s name m).store = s ∨ (write lead s name m).store = s ++ [(name, m)] := by
  unfold write
  split
  · split
    · exact Or.inl rfl
    · exact Or.inr rfl
  · exact Or.inl rfl

/-- However far writing gets, what ends up behind the other entries is a front of
those to be written. -/
theorem exists_store_writeAll (lead : String) (s : Store) (entries : List (Name × Meta)) :
    ∃ k, (writeAll lead s entries).store = s ++ entries.take k := by
  induction entries generalizing s with
  | nil => exact ⟨0, by simp [writeAll]⟩
  | cons entry rest ih =>
    obtain ⟨name, m⟩ := entry
    rw [writeAll]
    cases hwrite : (write lead s name m).fault with
    | some f =>
      rw [Progress.andThen_of_fault hwrite]
      rcases store_write_cases lead s name m with hsame | hone
      · exact ⟨0, by simpa using hsame⟩
      · exact ⟨1, by simpa using hone⟩
    | none =>
      obtain ⟨k, hk⟩ := ih (s ++ [(name, m)])
      rw [Progress.store_andThen hwrite, store_write hwrite, hk]
      exact ⟨k + 1, by simp⟩

/-- Writing under fresh names can only fail for a value without a text. -/
theorem consistent_writeAll (lead : String) (hd : Name.Distinct (names (s ++ entries))) :
    (writeAll lead s entries).Consistent := by
  induction entries generalizing s with
  | nil => exact Progress.consistent_of_fault_eq_none rfl
  | cons entry rest ih =>
    obtain ⟨name, m⟩ := entry
    rw [List.append_cons] at hd
    have hfront : Name.Distinct (names (s ++ [(name, m)])) := by
      rw [names_append] at hd
      exact (Name.distinct_append.mp hd).1
    have hfresh : lookup? s name = none := (distinct_append_singleton.mp hfront).2
    rw [writeAll]
    apply (consistent_write lead hfresh).andThen
    intro hwrite
    rw [store_write hwrite]
    exact ih hd

end Store

end GraphShapes
