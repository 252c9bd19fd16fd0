/-
GraphShapes.Proofs.CountTheorems — the queue driven by counts.

`Graph.emit` takes its turns by a bound and finds out at every turn which
indices have all their suppliers emitted. The same order comes from counts, and
no bound: a `Tally` has, for every index, the number of indices that it still
waits for and the list of those that wait for it. A turn takes the index in
front of the queue, counts down all that wait for it and queues those that
wait for nothing any more; the queue is run until it is empty (`Drains`).

Counting is sound as long as the two halves of the tally agree. `Holds` says so
of a relation of waiting: the list of an index has those that wait for it, once
each, and a count is the number of lists that its index is in. Entering a link
twice therefore counts it once, and an index that waits for itself is in its
own list and never comes down to zero. `Holds.link` and `Holds.turn` carry this
along, and `Queued.drains` runs both queues side by side: they emit the same
order, and the one without a bound does become empty.

  §1 Tallies — links, counting down, turns.
  §2 Holds   — the relation that a tally stands for.
  §3 Runs    — the two queues side by side.
-/
import GraphShapes.Proofs.OrderTheorems
import Mathlib.Data.List.Sort

namespace GraphShapes.Graph

variable {supply : List (List Nat)} {queue emitted : List Nat} {turns u v n : Nat}

/-! ## §1 Tallies -/

/-- Who waits, and for how many. -/
structure Tally where
  /-- How many indices an index waits for. -/
  waiting : List Int
  /-- Which indices wait for an index. -/
  followers : List (List Nat)

namespace Tally

/-- How many indices `v` waits for. -/
def waitingFor (t : Tally) (v : Nat) : Int := t.waiting[v]?.getD 0

/-- Which indices wait for `u`. -/
def followersOf (t : Tally) (u : Nat) : List Nat := t.followers[u]?.getD []

/-- Which indices wait for `u`, in ascending order. -/
def sortedFollowers (t : Tally) (u : Nat) : List Nat := (t.followersOf u).mergeSort (· ≤ ·)

/-- Another count for `v`. -/
def setWaiting (t : Tally) (v : Nat) (n : Int) : Tally := { t with waiting := t.waiting.set v n }

/-- Another list for `u`. -/
def setFollowers (t : Tally) (u : Nat) (vs : List Nat) : Tally :=
  { t with followers := t.followers.set u vs }

/-- Nothing waits. -/
def empty (n : Nat) : Tally := ⟨List.replicate n 0, List.replicate n []⟩

/-- Lets `v` wait for `u`, unless it does already. -/
def link (t : Tally) (u v : Nat) : Tally :=
  if v ∈ t.followersOf u then t
  else (t.setFollowers u (v :: t.followersOf u)).setWaiting v (t.waitingFor v + 1)

/-- Lets `v` wait for its suppliers. -/
def linkAll (t : Tally) (us : List Nat) (v : Nat) : Tally := us.foldl (fun t u => t.link u v) t

/-- Lets the indices from `v` on wait for their suppliers. -/
def linkFrom (t : Tally) (v : Nat) : List (List Nat) → Tally
  | [] => t
  | us :: rest => (t.linkAll us v).linkFrom (v + 1) rest

/-- Every index waits for its suppliers. -/
def ofSupply (supply : List (List Nat)) : Tally := (empty supply.length).linkFrom 0 supply

/-- The indices that wait for nothing. -/
def free (t : Tally) : List Nat := (t.waiting.zipIdx.filter fun (n, _) => n = 0).map (·.2)

/-- Counts down at one index after the other; those that come to zero are set free. -/
def countDown (t : Tally) : List Nat → Tally × List Nat
  | [] => (t, [])
  | v :: vs =>
    let t := t.setWaiting v (t.waitingFor v - 1)
    let (t', freed) := t.countDown vs
    (t', if t.waitingFor v = 0 then v :: freed else freed)

/-- What emitting `u` does to the tally, and the indices that it sets free. -/
def turn (t : Tally) (u : Nat) : Tally × List Nat :=
  let (t', freed) := t.countDown (t.sortedFollowers u)
  (t'.setFollowers u [], freed)

end Tally

/-- The queue, run until it is empty: each turn emits the index in front and
queues those that it sets free. -/
inductive Drains : Tally → List Nat → List Nat → List Nat → Prop
  | done (t : Tally) (emitted : List Nat) : Drains t [] emitted emitted
  | turn {t : Tally} {u : Nat} {queue emitted order : List Nat}
      (rest : Drains (t.turn u).1 (queue ++ (t.turn u).2) (emitted ++ [u]) order) :
      Drains t (u :: queue) emitted order

/-! ## §2 Holds -/

namespace Tally

variable {t : Tally} {waits : Nat → Nat → Prop} {vs : List Nat}

/-- In how many lists an index is. -/
def lists (t : Tally) (v : Nat) : Nat := t.followers.countP (v ∈ ·)

@[simp] theorem followersOf_setWaiting (m : Int) :
    (t.setWaiting v m).followersOf u = t.followersOf u := rfl

@[simp] theorem waitingFor_setFollowers : (t.setFollowers u vs).waitingFor v = t.waitingFor v := rfl

@[simp] theorem lists_setWaiting (m : Int) : (t.setWaiting u m).lists v = t.lists v := rfl

theorem waitingFor_setWaiting (h : v < t.waiting.length) (m : Int) (w : Nat) :
    (t.setWaiting v m).waitingFor w = if w = v then m else t.waitingFor w := by
  unfold waitingFor setWaiting
  rw [List.getElem?_set]
  by_cases hvw : v = w
  · simp [← hvw, h]
  · simp [hvw, Ne.symm hvw]

theorem followersOf_setFollowers (h : u < t.followers.length) (vs : List Nat) (w : Nat) :
    (t.setFollowers u vs).followersOf w = if w = u then vs else t.followersOf w := by
  unfold followersOf setFollowers
  rw [List.getElem?_set]
  by_cases huw : u = w
  · simp [← huw, h]
  · simp [huw, Ne.symm huw]

/-- Replacing a list takes an index out of one list, puts it into one, or both. -/
theorem lists_setFollowers (h : u < t.followers.length) (vs : List Nat) (v : Nat) :
    ((t.setFollowers u vs).lists v : Int)
      = t.lists v - (if v ∈ t.followersOf u then 1 else 0) + (if v ∈ vs then 1 else 0) := by
  have hget : t.followersOf u = t.followers[u] := by simp [followersOf, h]
  unfold lists setFollowers
  rw [List.countP_set h, ← hget]
  by_cases hold : v ∈ t.followersOf u
  · have hpos : 0 < t.followers.countP (v ∈ ·) :=
      List.countP_pos_iff.mpr ⟨t.followers[u], List.getElem_mem h, by simpa [← hget] using hold⟩
    by_cases hnew : v ∈ vs <;> simp [hold, hnew] <;> omega
  · by_cases hnew : v ∈ vs <;> simp [hold, hnew]

/-- The tally stands for a relation: `waits u v` says that `v` waits for `u`. -/
structure Holds (n : Nat) (waits : Nat → Nat → Prop) (t : Tally) : Prop where
  length_waiting : t.waiting.length = n
  length_followers : t.followers.length = n
  mem_followersOf : ∀ u < n, ∀ v, v ∈ t.followersOf u ↔ waits u v
  followers_lt : ∀ u < n, ∀ v ∈ t.followersOf u, v < n
  nodup : ∀ u < n, (t.followersOf u).Nodup
  waitingFor : ∀ v < n, t.waitingFor v = t.lists v

theorem holds_empty (n : Nat) : (empty n).Holds n fun _ _ => False := by
  have hnone (u : Nat) (hu : u < n) : (empty n).followersOf u = [] := by
    simp [empty, followersOf, hu]
  refine ⟨List.length_replicate, List.length_replicate, ?_, ?_, ?_, ?_⟩
  · intro u hu v
    simp [hnone u hu]
  · intro u hu v
    simp [hnone u hu]
  · intro u hu
    simp [hnone u hu]
  · intro v hv
    simp [empty, waitingFor, lists, hv, List.countP_replicate]

/-- A tally stands for every relation with the same links. -/
theorem Holds.congr {waits' : Nat → Nat → Prop} (h : t.Holds n waits)
    (hsame : ∀ u < n, ∀ v, waits u v ↔ waits' u v) : t.Holds n waits' where
  length_waiting := h.length_waiting
  length_followers := h.length_followers
  mem_followersOf u hu v := (h.mem_followersOf u hu v).trans (hsame u hu v)
  followers_lt := h.followers_lt
  nodup := h.nodup
  waitingFor := h.waitingFor

/-- One link more. -/
theorem Holds.link (h : t.Holds n waits) (hu : u < n) (hv : v < n) :
    (t.link u v).Holds n fun a b => waits a b ∨ (a = u ∧ b = v) := by
  unfold Tally.link
  split
  · next hmem =>
    refine h.congr fun a ha b => ⟨Or.inl, ?_⟩
    rintro (hold | ⟨rfl, rfl⟩)
    · exact hold
    · exact (h.mem_followersOf _ hu _).mp hmem
  · next hnew =>
    have hu' : u < t.followers.length := h.length_followers.symm ▸ hu
    have hv' : v < (t.setFollowers u (v :: t.followersOf u)).waiting.length :=
      h.length_waiting.symm ▸ hv
    refine ⟨?_, ?_, ?_, ?_, ?_, ?_⟩
    · simpa [setWaiting, setFollowers] using h.length_waiting
    · simpa [setWaiting, setFollowers] using h.length_followers
    · intro a ha b
      rw [followersOf_setWaiting, followersOf_setFollowers hu']
      by_cases hau : a = u
      · simp [hau, h.mem_followersOf u hu, or_comm]
      · simp [hau, h.mem_followersOf a ha]
    · intro a ha b hb
      rw [followersOf_setWaiting, followersOf_setFollowers hu'] at hb
      split at hb
      · rcases List.mem_cons.mp hb with rfl | hold
        · exact hv
        · exact h.followers_lt u hu b hold
      · exact h.followers_lt a ha b hb
    · intro a ha
      rw [followersOf_setWaiting, followersOf_setFollowers hu']
      split
      · exact List.nodup_cons.mpr ⟨hnew, h.nodup u hu⟩
      · exact h.nodup a ha
    · intro b hb
      rw [lists_setWaiting, waitingFor_setWaiting hv', lists_setFollowers hu',
        waitingFor_setFollowers, h.waitingFor b hb, h.waitingFor v hv]
      by_cases hbv : b = v
      · simp [hbv, hnew]
      · by_cases hold : b ∈ t.followersOf u <;> simp [hbv, hold]

theorem Holds.linkAll {us : List Nat} (h : t.Holds n waits) (hus : ∀ u ∈ us, u < n) (hv : v < n) :
    (t.linkAll us v).Holds n fun a b => waits a b ∨ (a ∈ us ∧ b = v) := by
  induction us generalizing t waits with
  | nil => exact h.congr fun a _ b => by simp
  | cons u us ih =>
    obtain ⟨hu, hus⟩ := List.forall_mem_cons.mp hus
    refine (ih (h.link hu hv) hus).congr fun a _ b => ?_
    rw [List.mem_cons]
    tauto

theorem Holds.linkFrom (h : t.Holds n waits) (hlen : v + supply.length ≤ n)
    (hin : ∀ us ∈ supply, ∀ u ∈ us, u < n) :
    (t.linkFrom v supply).Holds n
      fun a b => waits a b ∨ ∃ us, (us, b) ∈ supply.zipIdx v ∧ a ∈ us := by
  induction supply generalizing v t waits with
  | nil => exact h.congr fun a _ b => by simp
  | cons us rest ih =>
    obtain ⟨hus, hin⟩ := List.forall_mem_cons.mp hin
    rw [List.length_cons] at hlen
    refine (ih (h.linkAll hus (by omega)) (by omega) hin).congr fun a _ b => ?_
    simp only [List.zipIdx_cons, List.mem_cons, Prod.mk.injEq]
    constructor
    · rintro ((hold | ⟨ha, rfl⟩) | ⟨us', hus', ha⟩)
      · exact Or.inl hold
      · exact Or.inr ⟨us, Or.inl ⟨rfl, rfl⟩, ha⟩
      · exact Or.inr ⟨us', Or.inr hus', ha⟩
    · rintro (hold | ⟨us', ⟨rfl, rfl⟩ | hus', ha⟩)
      · exact Or.inl (Or.inl hold)
      · exact Or.inl (Or.inr ⟨ha, rfl⟩)
      · exact Or.inr ⟨us', hus', ha⟩

/-- At first every index waits for its suppliers. -/
theorem holds_ofSupply (hin : ∀ us ∈ supply, ∀ u ∈ us, u < supply.length) :
    (ofSupply supply).Holds supply.length (Supplies supply) := by
  have hlen : 0 + supply.length ≤ supply.length := by simp
  refine ((holds_empty supply.length).linkFrom hlen hin).congr fun a _ b => ?_
  simp [Supplies, List.mem_zipIdx_iff_getElem?]

@[simp] theorem followers_countDown (t : Tally) (vs : List Nat) :
    (t.countDown vs).1.followers = t.followers := by
  induction vs generalizing t with
  | nil => rfl
  | cons v vs ih => exact ih _

@[simp] theorem length_waiting_countDown (t : Tally) (vs : List Nat) :
    (t.countDown vs).1.waiting.length = t.waiting.length := by
  induction vs generalizing t with
  | nil => rfl
  | cons v vs ih => exact (ih _).trans (List.length_set ..)

/-- Each index that is counted down waits for one less. -/
theorem waitingFor_countDown (hvs : vs.Nodup) (hlt : ∀ v ∈ vs, v < t.waiting.length) (w : Nat) :
    (t.countDown vs).1.waitingFor w = t.waitingFor w - if w ∈ vs then 1 else 0 := by
  induction vs generalizing t with
  | nil => simp [countDown]
  | cons v vs ih =>
    obtain ⟨hnew, hvs⟩ := List.nodup_cons.mp hvs
    obtain ⟨hv, hlt⟩ := List.forall_mem_cons.mp hlt
    have hlt' : ∀ v' ∈ vs, v' < (t.setWaiting v (t.waitingFor v - 1)).waiting.length := by
      simpa [setWaiting] using hlt
    refine (ih hvs hlt').trans ?_
    rw [waitingFor_setWaiting hv]
    by_cases hwv : w = v
    · simp [hwv, hnew]
    · simp [hwv]

/-- Set free are the indices that wait for nothing when all have been counted down. -/
theorem freed_countDown (hvs : vs.Nodup) (hlt : ∀ v ∈ vs, v < t.waiting.length) :
    (t.countDown vs).2 = vs.filter ((t.countDown vs).1.waitingFor · = 0) := by
  induction vs generalizing t with
  | nil => rfl
  | cons v vs ih =>
    obtain ⟨hnew, hvs⟩ := List.nodup_cons.mp hvs
    obtain ⟨_, hlt⟩ := List.forall_mem_cons.mp hlt
    have hlt' : ∀ v' ∈ vs, v' < (t.setWaiting v (t.waitingFor v - 1)).waiting.length := by
      simpa [setWaiting] using hlt
    -- The count of `v` does not change any more once its turn is over.
    have hlast := waitingFor_countDown hvs hlt' v
    rw [if_neg hnew, Int.sub_zero] at hlast
    rw [countDown, List.filter_cons]
    simp only [hlast, ih hvs hlt', decide_eq_true_eq]

/-- An index waits for nothing when it is in no list. -/
theorem Holds.waitingFor_eq_zero_iff (h : t.Holds n waits) (hv : v < n) :
    t.waitingFor v = 0 ↔ ∀ u < n, ¬ waits u v := by
  rw [h.waitingFor v hv, Int.natCast_eq_zero, lists, List.countP_eq_zero]
  constructor
  · intro hnone u hu hwaits
    have hmem := (h.mem_followersOf u hu v).mpr hwaits
    have hu' : u < t.followers.length := h.length_followers.symm ▸ hu
    rw [followersOf, List.getElem?_eq_getElem hu'] at hmem
    exact hnone _ (List.getElem_mem hu') (decide_eq_true hmem)
  · intro hnone vs hvs hmem
    obtain ⟨u, hu, rfl⟩ := List.getElem_of_mem hvs
    have hu' : u < n := h.length_followers ▸ hu
    refine hnone u hu' ((h.mem_followersOf u hu' v).mp ?_)
    simpa [followersOf, hu] using hmem

theorem Holds.mem_free (h : t.Holds n waits) : v ∈ t.free ↔ v < n ∧ ∀ u < n, ¬ waits u v := by
  simp only [free, List.mem_map, List.mem_filter, List.mem_zipIdx_iff_getElem?, decide_eq_true_eq]
  constructor
  · rintro ⟨⟨_, w⟩, ⟨hcount, rfl⟩, rfl⟩
    have hw : w < n := by
      rw [← h.length_waiting]
      exact (List.getElem?_eq_some_iff.mp hcount).1
    have hzero : t.waitingFor w = 0 := by simp [Tally.waitingFor, hcount]
    exact ⟨hw, (h.waitingFor_eq_zero_iff hw).mp hzero⟩
  · rintro ⟨hv, hnone⟩
    have hv' : v < t.waiting.length := h.length_waiting.symm ▸ hv
    have hzero := (h.waitingFor_eq_zero_iff hv).mpr hnone
    rw [Tally.waitingFor, List.getElem?_eq_getElem hv'] at hzero
    exact ⟨(_, v), ⟨List.getElem?_eq_getElem hv', hzero⟩, rfl⟩

theorem turn_eq (t : Tally) (u : Nat) :
    t.turn u = ((t.countDown (t.sortedFollowers u)).1.setFollowers u [],
      (t.countDown (t.sortedFollowers u)).2) := rfl

theorem mem_sortedFollowers : v ∈ t.sortedFollowers u ↔ v ∈ t.followersOf u :=
  (List.mergeSort_perm _ _).mem_iff

theorem Holds.nodup_sortedFollowers (h : t.Holds n waits) (hu : u < n) :
    (t.sortedFollowers u).Nodup :=
  (List.mergeSort_perm _ _).nodup_iff.mpr (h.nodup u hu)

theorem Holds.sortedFollowers_lt (h : t.Holds n waits) (hu : u < n) :
    ∀ v ∈ t.sortedFollowers u, v < t.waiting.length := by
  intro v hv
  rw [h.length_waiting]
  exact h.followers_lt u hu v (mem_sortedFollowers.mp hv)

/-- **A turn**: nothing waits for what has been emitted. -/
theorem Holds.turn (h : t.Holds n waits) (hu : u < n) :
    (t.turn u).1.Holds n fun a b => waits a b ∧ a ≠ u := by
  have hu' : u < t.followers.length := h.length_followers.symm ▸ hu
  have hlist (a : Nat) : (t.turn u).1.followersOf a = if a = u then [] else t.followersOf a := by
    rw [turn_eq, followersOf_setFollowers (by simpa using hu')]
    simp [followersOf]
  refine ⟨?_, ?_, ?_, ?_, ?_, ?_⟩
  · rw [turn_eq]
    exact (length_waiting_countDown t _).trans h.length_waiting
  · rw [turn_eq]
    simpa [setFollowers] using h.length_followers
  · intro a ha b
    rw [hlist]
    by_cases hau : a = u
    · simp [hau]
    · simp [hau, h.mem_followersOf a ha]
  · intro a ha b hb
    rw [hlist] at hb
    split at hb
    · cases hb
    · exact h.followers_lt a ha b hb
  · intro a ha
    rw [hlist]
    split
    · exact List.nodup_nil
    · exact h.nodup a ha
  · intro b hb
    have hlists : ((t.countDown (t.sortedFollowers u)).1.lists b : Int) = t.lists b := by
      simp [lists]
    have hsame : (t.countDown (t.sortedFollowers u)).1.followersOf u = t.followersOf u := by
      simp [followersOf]
    rw [turn_eq, lists_setFollowers (by simpa using hu'), waitingFor_setFollowers,
      waitingFor_countDown (h.nodup_sortedFollowers hu) (h.sortedFollowers_lt hu), hlists, hsame,
      h.waitingFor b hb]
    simp [mem_sortedFollowers]

/-- A turn sets free what has waited for `u` and for nothing else. -/
theorem Holds.mem_freed (h : t.Holds n waits) (hu : u < n) :
    v ∈ (t.turn u).2 ↔ waits u v ∧ ∀ a < n, waits a v → a = u := by
  rw [turn_eq, freed_countDown (h.nodup_sortedFollowers hu) (h.sortedFollowers_lt hu),
    List.mem_filter, mem_sortedFollowers, h.mem_followersOf u hu, decide_eq_true_eq]
  refine and_congr_right fun hwaits => ?_
  have hv : v < n := h.followers_lt u hu v ((h.mem_followersOf u hu v).mpr hwaits)
  have hzero := (h.turn hu).waitingFor_eq_zero_iff hv
  rw [turn_eq, waitingFor_setFollowers] at hzero
  rw [hzero]
  refine forall₂_congr fun a _ => ?_
  simp

/-- Freed indices are in ascending order. -/
theorem Holds.pairwise_freed (h : t.Holds n waits) (hu : u < n) :
    (t.turn u).2.Pairwise (· ≤ ·) := by
  rw [turn_eq, freed_countDown (h.nodup_sortedFollowers hu) (h.sortedFollowers_lt hu)]
  exact (List.pairwise_mergeSort' (· ≤ ·) (t.followersOf u)).filter _

theorem Holds.nodup_freed (h : t.Holds n waits) (hu : u < n) : (t.turn u).2.Nodup := by
  rw [turn_eq, freed_countDown (h.nodup_sortedFollowers hu) (h.sortedFollowers_lt hu)]
  exact (h.nodup_sortedFollowers hu).filter _

end Tally

/-! ## §3 Runs -/

/-- Once every index has been emitted nothing is left in the queue. -/
theorem Queued.queue_eq_nil (h : Queued supply queue emitted)
    (hfull : supply.length ≤ emitted.length) : queue = [] := by
  obtain ⟨hnodup, _, hdisjoint⟩ := List.nodup_append'.mp h.nodup
  have hperm := perm_range_of_length hnodup (fun _ hw => h.inOrder.lt_length hw) hfull
  apply List.eq_nil_iff_forall_not_mem.mpr
  intro w hw
  have hready : Ready supply emitted w := (h.ready w).mp (List.mem_append_right _ hw)
  exact hdisjoint (hperm.mem_iff.mpr (List.mem_range.mpr hready.lt_length)) hw

/-- What waits while `emitted` are out: an index for each of its suppliers that is not. -/
def Waits (supply : List (List Nat)) (emitted : List Nat) (u v : Nat) : Prop :=
  u ∉ emitted ∧ Supplies supply u v

/-- Ascending lists with the same members, none of them twice, are the same. -/
theorem eq_of_pairwise_le {as bs : List Nat} (ha : as.Pairwise (· ≤ ·)) (hb : bs.Pairwise (· ≤ ·))
    (hnodup : as.Nodup) (hnodup' : bs.Nodup) (h : ∀ v, v ∈ as ↔ v ∈ bs) : as = bs :=
  ((List.perm_ext_iff_of_nodup hnodup hnodup').mpr h).eq_of_pairwise
    (fun _ _ _ _ => Nat.le_antisymm) ha hb

/-- What a turn sets free is what it releases. -/
theorem freed_eq_released {t : Tally} (h : t.Holds supply.length (Waits supply emitted))
    (hin : ∀ us ∈ supply, ∀ u ∈ us, u < supply.length) (hu : u < supply.length)
    (hnew : u ∉ emitted) : (t.turn u).2 = released supply (emitted ++ [u]) u := by
  have hascending := (pairwise_released supply (emitted ++ [u]) u).imp Nat.le_of_lt
  refine eq_of_pairwise_le (h.pairwise_freed hu) hascending (h.nodup_freed hu)
    (nodup_released _ _ _) fun v => ?_
  rw [h.mem_freed hu, mem_released]
  constructor
  · rintro ⟨⟨_, us, hus, hsupplied⟩, honly⟩
    refine ⟨us, hus, hsupplied, fun w hw => ?_⟩
    by_cases hold : w ∈ emitted
    · exact List.mem_append_left _ hold
    · rw [honly w (hin us (List.mem_of_getElem? hus) w hw) ⟨hold, us, hus, hw⟩]
      exact List.mem_append_right _ List.mem_cons_self
  · rintro ⟨us, hus, hsupplied, hall⟩
    have hready : Ready supply (emitted ++ [u]) v := ⟨us, hus, hall⟩
    refine ⟨⟨hnew, us, hus, hsupplied⟩, ?_⟩
    rintro a _ ⟨hwaits, hsupplies⟩
    rcases List.mem_append.mp (hready.mem_of_supplies hsupplies) with hold | hlast
    · exact absurd hold hwaits
    · exact List.mem_singleton.mp hlast

/-- What waits for nothing at first are the sources. -/
theorem free_ofSupply (hin : ∀ us ∈ supply, ∀ u ∈ us, u < supply.length) :
    (Tally.ofSupply supply).free = sources supply := by
  have h := Tally.holds_ofSupply hin
  have hfree : (Tally.ofSupply supply).free.Pairwise (· < ·) :=
    pairwise_map_snd_filter_zipIdx _ _
  refine eq_of_pairwise_le (hfree.imp Nat.le_of_lt) ((pairwise_sources supply).imp Nat.le_of_lt)
    (hfree.imp Nat.ne_of_lt) (nodup_sources supply) fun v => ?_
  rw [h.mem_free, mem_sources]
  constructor
  · rintro ⟨hv, hnone⟩
    refine ⟨supply[v], List.getElem?_eq_getElem hv, fun u hu => ?_⟩
    have hlt : u < supply.length := hin _ (List.getElem_mem hv) u hu
    exact absurd ⟨_, List.getElem?_eq_getElem hv, hu⟩ (hnone u hlt)
  · intro hready
    refine ⟨hready.lt_length, fun u _ hsupplies => ?_⟩
    exact absurd (hready.mem_of_supplies hsupplies) List.not_mem_nil

/-- **Both queues emit the same order**, and the one without a bound on its turns
becomes empty. -/
theorem Queued.drains {t : Tally} (h : Queued supply queue emitted)
    (ht : t.Holds supply.length (Waits supply emitted))
    (hin : ∀ us ∈ supply, ∀ u ∈ us, u < supply.length)
    (hturns : supply.length ≤ turns + emitted.length) :
    Drains t queue emitted (emit supply turns queue emitted) := by
  induction turns generalizing queue emitted t with
  | zero =>
    rw [h.queue_eq_nil (by omega), emit]
    exact .done t emitted
  | succ turns ih =>
    cases queue with
    | nil =>
      rw [emit]
      exact .done t emitted
    | cons u queue =>
      have hu : u < supply.length := h.ready_head.lt_length
      rw [emit]
      apply Drains.turn
      rw [freed_eq_released ht hin hu h.head_notMem]
      apply ih h.turn
      · refine (ht.turn hu).congr fun a _ b => ?_
        simp only [Waits, List.mem_append, List.mem_singleton, not_or]
        tauto
      · rw [List.length_append, List.length_singleton]
        omega

end GraphShapes.Graph
