/-
GraphShapes.Proofs.BroadcastTheorems — broadcasting is a join.

A shape expands to another if, lined up on the right, each of its sizes is one or
the size of the other there. This orders shapes, and two shapes broadcast to the
least one that both expand to, if there is one at all. `expands_broadcast_iff` says
both at once: what two shapes have in common above them is what is above their
broadcast. That the order of shapes and the way they are grouped do not matter
follows from there, and no list is walked again.

A failure has one code, and its message shows two of the sizes. Whether it can be told
is up to these: a size that is too long to write leaves no message (`broadcast_untold`).

  §1 Expansion — the order.
  §2 Joins     — the broadcast as a least upper bound, and its laws.
  §3 Sizes     — where the sizes of a broadcast, or of its failure, come from.
  §4 Summary   — the broadcast as a partial operation, failures included.
-/
import GraphShapes.Fault
import GraphShapes.Proofs.ShapeTheorems

namespace GraphShapes.Shape

variable {a b c r s : Shape} {i : Nat} {d : Defect}

/-! ## §1 Expansion -/

/-- One shape expands to another, both given from the last axis on. -/
def ExpandsFromEnd : Shape → Shape → Prop
  | [], _ => True
  | _ :: _, [] => False
  | x :: a, y :: s => (x = 1 ∨ x = y) ∧ ExpandsFromEnd a s

/-- One shape expands to another: lined up on the right, each of its sizes is one or
the size of the other. -/
def Expands (a s : Shape) : Prop := ExpandsFromEnd a.reverse s.reverse

theorem expandsFromEnd_refl : ∀ a : Shape, ExpandsFromEnd a a
  | [] => trivial
  | _ :: a => ⟨Or.inr rfl, expandsFromEnd_refl a⟩

theorem expandsFromEnd_antisymm :
    ∀ {a s : Shape}, ExpandsFromEnd a s → ExpandsFromEnd s a → a = s
  | [], [], _, _ => rfl
  | [], _ :: _, _, h => h.elim
  | _ :: _, [], h, _ => h.elim
  | x :: a, y :: s, ⟨hxy, has⟩, ⟨hyx, hsa⟩ => by
    have hsize : x = y := by omega
    rw [hsize, expandsFromEnd_antisymm has hsa]

theorem expands_refl (a : Shape) : Expands a a := expandsFromEnd_refl a.reverse

theorem expands_nil (s : Shape) : Expands [] s := trivial

theorem Expands.antisymm (h : Expands a s) (h' : Expands s a) : a = s :=
  List.reverse_injective (expandsFromEnd_antisymm h h')

/-! ## §2 Joins -/

/-- From the last axis on, two shapes expand to a third when they broadcast and their
broadcast expands to it. -/
theorem expandsFromEnd_broadcast_iff :
    ExpandsFromEnd a s ∧ ExpandsFromEnd b s ↔
      ∃ r, broadcastFromEnd i a b = .ok r ∧ ExpandsFromEnd r s := by
  induction a generalizing b s i with
  | nil => simp [broadcastFromEnd, ExpandsFromEnd]
  | cons x a ih =>
    cases b with
    | nil => simp [broadcastFromEnd, ExpandsFromEnd]
    | cons y b =>
      simp only [broadcastFromEnd_cons_eq_ok_iff]
      cases s with
      | nil =>
        constructor
        · exact fun h => h.1.elim
        · rintro ⟨_, ⟨_, behind, _, rfl⟩, h⟩
          exact h.elim
      | cons z s =>
        -- The sizes at this axis agree with the third, whatever lies behind.
        have hsize : (x = 1 ∨ x = z) ∧ (y = 1 ∨ y = z) ↔
            (x = 1 ∨ y = 1 ∨ x = y) ∧
              ((if x = 1 then y else x) = 1 ∨ (if x = 1 then y else x) = z) := by
          split <;> omega
        constructor
        · rintro ⟨⟨hx, ha⟩, hy, hb⟩
          obtain ⟨hxy, hz⟩ := hsize.mp ⟨hx, hy⟩
          obtain ⟨behind, hbehind, hs⟩ := ih.mp ⟨ha, hb⟩
          exact ⟨_, ⟨hxy, behind, hbehind, rfl⟩, hz, hs⟩
        · rintro ⟨_, ⟨hxy, behind, hbehind, rfl⟩, hz, hs⟩
          obtain ⟨hx, hy⟩ := hsize.mpr ⟨hxy, hz⟩
          obtain ⟨ha, hb⟩ := ih.mpr ⟨behind, hbehind, hs⟩
          exact ⟨⟨hx, ha⟩, hy, hb⟩

theorem broadcast_eq_ok_reverse_iff :
    broadcast a b = .ok r ↔ broadcastFromEnd 0 a.reverse b.reverse = .ok r.reverse := by
  unfold broadcast
  cases broadcastFromEnd 0 a.reverse b.reverse with
  | error d => simp [Except.map]
  | ok q => simp [Except.map, List.reverse_eq_iff]

/-- **The broadcast.** Two shapes expand to a third when they broadcast and their
broadcast expands to it. -/
theorem expands_broadcast_iff :
    Expands a s ∧ Expands b s ↔ ∃ r, broadcast a b = .ok r ∧ Expands r s := by
  simp only [Expands, broadcast_eq_ok_reverse_iff]
  rw [expandsFromEnd_broadcast_iff (i := 0)]
  constructor
  · rintro ⟨q, hq, hs⟩
    exact ⟨q.reverse, by simpa using hq, by simpa using hs⟩
  · rintro ⟨r, hr, hs⟩
    exact ⟨r.reverse, hr, hs⟩

/-- A shape is the broadcast of two others when it expands to what both expand to, and
to nothing else. -/
theorem broadcast_eq_ok_iff :
    broadcast a b = .ok r ↔ ∀ s, Expands a s ∧ Expands b s ↔ Expands r s := by
  constructor
  · intro hr s
    rw [expands_broadcast_iff, hr]
    simp
  · intro h
    obtain ⟨q, hq, hqr⟩ := expands_broadcast_iff.mp ((h r).mpr (expands_refl r))
    have hrq : Expands r q := (h q).mp (expands_broadcast_iff.mpr ⟨q, hq, expands_refl q⟩)
    rw [hq, hqr.antisymm hrq]

/-- A shape that two others expand to, and that expands to every such shape. -/
structure IsLeastExpansion (a b r : Shape) : Prop where
  left : Expands a r
  right : Expands b r
  least : ∀ s, Expands a s → Expands b s → Expands r s

theorem broadcast_eq_ok_iff_isLeastExpansion :
    broadcast a b = .ok r ↔ IsLeastExpansion a b r := by
  constructor
  · intro hr
    have hcommon := broadcast_eq_ok_iff.mp hr
    obtain ⟨hleft, hright⟩ := (hcommon r).mpr (expands_refl r)
    exact ⟨hleft, hright, fun s ha hb => (hcommon s).mp ⟨ha, hb⟩⟩
  · rintro ⟨hleft, hright, hleast⟩
    obtain ⟨q, hq, hqr⟩ := expands_broadcast_iff.mp ⟨hleft, hright⟩
    obtain ⟨ha, hb⟩ := (broadcast_eq_ok_iff.mp hq q).mpr (expands_refl q)
    rw [hq, hqr.antisymm (hleast q ha hb)]

/-- Two shapes broadcast when they both expand to some shape. -/
theorem exists_broadcast_iff :
    (∃ r, broadcast a b = .ok r) ↔ ∃ s, Expands a s ∧ Expands b s := by
  constructor
  · rintro ⟨r, hr⟩
    exact ⟨r, (broadcast_eq_ok_iff.mp hr r).mpr (expands_refl r)⟩
  · rintro ⟨s, hs⟩
    obtain ⟨r, hr, _⟩ := expands_broadcast_iff.mp hs
    exact ⟨r, hr⟩

/-- A shape that expands to another broadcasts with it to the other. -/
theorem broadcast_eq_of_expands (h : Expands a b) : broadcast a b = .ok b :=
  broadcast_eq_ok_iff_isLeastExpansion.mpr ⟨h, expands_refl b, fun _ _ hb => hb⟩

theorem broadcast_comm_iff : broadcast a b = .ok r ↔ broadcast b a = .ok r := by
  rw [broadcast_eq_ok_iff, broadcast_eq_ok_iff]
  exact forall_congr' fun s => by rw [and_comm]

/-- Three shapes of which the first two are broadcast before the third. -/
theorem broadcast_left_eq_ok_iff :
    (∃ m, broadcast a b = .ok m ∧ broadcast m c = .ok r) ↔
      ∀ s, (Expands a s ∧ Expands b s) ∧ Expands c s ↔ Expands r s := by
  constructor
  · rintro ⟨m, hm, hr⟩ s
    rw [broadcast_eq_ok_iff.mp hm s]
    exact broadcast_eq_ok_iff.mp hr s
  · intro h
    obtain ⟨m, hm, _⟩ := expands_broadcast_iff.mp ((h r).mpr (expands_refl r)).1
    refine ⟨m, hm, broadcast_eq_ok_iff.mpr fun s => ?_⟩
    rw [← broadcast_eq_ok_iff.mp hm s]
    exact h s

/-- **Grouping.** Three shapes broadcast to the same, whichever two are broadcast first. -/
theorem broadcast_assoc_iff :
    (∃ m, broadcast a b = .ok m ∧ broadcast m c = .ok r) ↔
      ∃ m, broadcast b c = .ok m ∧ broadcast a m = .ok r := by
  have hcomm (m : Shape) : broadcast a m = .ok r ↔ broadcast m a = .ok r := broadcast_comm_iff
  simp only [hcomm, broadcast_left_eq_ok_iff]
  exact forall_congr' fun s => by rw [and_assoc, and_comm]

/-! ## §3 Sizes -/

/-- From the last axis on, a broadcast has no more axes than the longer shape, and no
size that neither has. -/
theorem sizes_broadcastFromEnd (h : broadcastFromEnd i a b = .ok r) :
    r.length ≤ max a.length b.length ∧ ∀ x ∈ r, x ∈ a ∨ x ∈ b := by
  induction a generalizing b i r with
  | nil =>
    cases h
    exact ⟨Nat.le_max_right _ _, fun x hx => Or.inr hx⟩
  | cons y a ih =>
    cases b with
    | nil =>
      cases h
      exact ⟨Nat.le_max_left _ _, fun x hx => Or.inl hx⟩
    | cons z b =>
      obtain ⟨_, behind, hbehind, rfl⟩ := broadcastFromEnd_cons_eq_ok_iff.mp h
      obtain ⟨hlength, hsizes⟩ := ih hbehind
      refine ⟨by simp only [List.length_cons]; omega, fun x hx => ?_⟩
      rcases List.mem_cons.mp hx with rfl | hx
      · split
        · exact Or.inr List.mem_cons_self
        · exact Or.inl List.mem_cons_self
      · exact (hsizes x hx).imp (List.mem_cons_of_mem y) (List.mem_cons_of_mem z)

/-- Two shapes that do not broadcast have sizes that differ on an axis that both have. -/
theorem broadcastFromEnd_eq_error (h : broadcastFromEnd i a b = .error d) :
    ∃ x ∈ a, ∃ y ∈ b, ∃ j < a.length, d = .broadcast x y (-1 - ((i + j : Nat) : Int)) := by
  induction a generalizing b i with
  | nil => cases h
  | cons y a ih =>
    cases b with
    | nil => cases h
    | cons z b =>
      have hbehind (size : Int)
          (h : (do return size :: (← broadcastFromEnd (i + 1) a b)) = Except.error d) :
          broadcastFromEnd (i + 1) a b = .error d := by
        rcases bind_eq_error_iff.mp h with hbehind | ⟨_, _, hpure⟩
        · exact hbehind
        · cases hpure
      -- The axis at which the shapes differ is this one, or it lies behind.
      have hcases : d = .broadcast y z (-1 - (i : Int)) ∨
          broadcastFromEnd (i + 1) a b = .error d := by
        rw [broadcastFromEnd] at h
        simp only [ok_bind, error_bind] at h
        repeat' split at h
        · exact Or.inr (hbehind z h)
        · exact Or.inr (hbehind y h)
        · exact Or.inr (hbehind y h)
        · exact Or.inl (Except.error.inj h).symm
      rcases hcases with hd | hbehind
      · exact ⟨y, List.mem_cons_self, z, List.mem_cons_self, 0, Nat.succ_pos _, hd⟩
      · obtain ⟨x, hx, x', hx', j, hj, rfl⟩ := ih hbehind
        refine ⟨x, List.mem_cons_of_mem y hx, x', List.mem_cons_of_mem z hx', j + 1,
          Nat.succ_lt_succ hj, ?_⟩
        rw [Nat.add_right_comm i 1 j, Nat.add_assoc]

/-- A broadcast has no more axes than the longer shape, and no size that neither has. -/
theorem sizes_broadcast (h : broadcast a b = .ok r) :
    r.length ≤ max a.length b.length ∧ ∀ x ∈ r, x ∈ a ∨ x ∈ b := by
  simpa using sizes_broadcastFromEnd (broadcast_eq_ok_reverse_iff.mp h)

/-- Two shapes that do not broadcast have sizes that differ on an axis that both have. -/
theorem broadcast_eq_error (h : broadcast a b = .error d) :
    ∃ x ∈ a, ∃ y ∈ b, ∃ j < a.length, d = .broadcast x y (-1 - (j : Int)) := by
  have hfromEnd : broadcastFromEnd 0 a.reverse b.reverse = .error d := by
    unfold broadcast at h
    cases hr : broadcastFromEnd 0 a.reverse b.reverse with
    | ok q =>
      rw [hr] at h
      cases h
    | error d' =>
      rw [hr] at h
      exact congrArg Except.error (Except.error.inj h)
  simpa using broadcastFromEnd_eq_error hfromEnd

/-- Why shapes do not broadcast can be told, if their sizes and the number of their axes
can. -/
theorem isWritable_of_broadcast_eq_error (ha : ∀ x ∈ a, Decimal.isWritable x = true)
    (hlength : a.length < Decimal.bound) (hb : ∀ y ∈ b, Decimal.isWritable y = true)
    (h : broadcast a b = .error d) : d.isWritable = true := by
  obtain ⟨x, hx, y, hy, j, hj, rfl⟩ := broadcast_eq_error h
  have haxis : Decimal.isWritable (-1 - (j : Int)) = true := by
    simp only [Decimal.isWritable, decide_eq_true_eq]
    omega
  simp [Defect.isWritable, Defect.integers, haxis, ha x hx, hb y hy]

/-! ## §4 Summary -/

/-- **Least expansions.** Two shapes broadcast exactly when both expand to some shape, and
then to the least such shape; otherwise the sizes that differ are reported, in an error
that can be told if every size can. As an operation that may fail, broadcasting is
commutative, idempotent and associative, and the shape without axes is neutral. -/
theorem broadcast_leastExpansion (a b c : Shape) :
    ((∃ r, broadcast a b = .ok r) ↔ ∃ s, Expands a s ∧ Expands b s) ∧
    (∀ r, broadcast a b = .ok r ↔ IsLeastExpansion a b r) ∧
    (∀ d, broadcast a b = .error d → d.code = "EBROADCAST" ∧
      ((∀ x ∈ a ++ b, Decimal.isWritable x = true) → a.length < Decimal.bound →
        d.isWritable = true)) ∧
    (broadcast a b).toOption = (broadcast b a).toOption ∧
    broadcast a a = .ok a ∧ broadcast [] a = .ok a ∧ broadcast a [] = .ok a ∧
    (do broadcast (← broadcast a b) c).toOption = (do broadcast a (← broadcast b c)).toOption := by
  refine ⟨exists_broadcast_iff, fun r => broadcast_eq_ok_iff_isLeastExpansion, fun d hd => ⟨?_, ?_⟩,
    toOption_eq_iff.mpr fun r => broadcast_comm_iff, broadcast_eq_of_expands (expands_refl a),
    broadcast_eq_of_expands (expands_nil a),
    broadcast_comm_iff.mp (broadcast_eq_of_expands (expands_nil a)),
    toOption_eq_iff.mpr fun r => ?_⟩
  · obtain ⟨x, _, y, _, j, _, rfl⟩ := broadcast_eq_error hd
    rfl
  · intro hsizes hlength
    obtain ⟨ha, hb⟩ := List.forall_mem_append.mp hsizes
    exact isWritable_of_broadcast_eq_error ha hlength hb hd
  · simp only [bind_eq_ok_iff]
    exact broadcast_assoc_iff

/-- A size with a digit too many and a size of two have no common expansion, but no error
says so: the longer size has no text. -/
theorem broadcast_untold :
    (¬ ∃ s, Expands [(Decimal.bound : Int)] s ∧ Expands [2] s) ∧
      ∀ tag, Fault.ofShape tag (broadcast [(Decimal.bound : Int)] [2])
        = .error (.misuse .badValue) := by
  have hbound := Decimal.byte_lt_bound
  have hone : (Decimal.bound : Int) ≠ 1 := by omega
  have htwo : (Decimal.bound : Int) ≠ 2 := by omega
  have herror : broadcast [(Decimal.bound : Int)] [2]
      = .error (.broadcast Decimal.bound 2 (-1)) := by
    simp [broadcast, broadcastFromEnd, hone, htwo]
    rfl
  constructor
  · rw [← exists_broadcast_iff, herror]
    rintro ⟨r, hr⟩
    cases hr
  · intro tag
    exact Fault.ofShape_eq_badValue herror (by simp [Defect.isWritable, Defect.integers])

end GraphShapes.Shape
