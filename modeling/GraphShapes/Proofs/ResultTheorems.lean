/-
GraphShapes.Proofs.ResultTheorems — results of computations that may fail.

Checks, look-ups and rules answer in `Except`. A sequence of them succeeds
when its parts do (`bind_eq_ok_iff`), and so does one that goes through a list
(`mapM_eq_ok_iff`); with these two no proof about a check needs to look inside
the monad. A sequence fails with the error of the first part that does
(`bind_eq_error_iff`).
-/
import Mathlib.Data.List.Forall2
import Mathlib.Data.Option.Basic

namespace GraphShapes

variable {ε α β : Type}

@[simp] theorem ok_bind (a : α) (f : α → Except ε β) : Except.ok a >>= f = f a := rfl

@[simp] theorem error_bind (e : ε) (f : α → Except ε β) :
    Except.error e >>= f = .error e := rfl

/-- A guarded computation succeeds when nothing is held against it and it does. -/
theorem guard_eq_ok_iff {p : Prop} [Decidable p] {e : ε} {x : Except ε α} {a : α} :
    (if p then .error e else x) = .ok a ↔ ¬ p ∧ x = .ok a := by
  by_cases hp : p
  · simp [hp]
  · simp [hp]

/-- Two computations in a row succeed when the first does, and the second from
its result. -/
theorem bind_eq_ok_iff {x : Except ε α} {f : α → Except ε β} {b : β} :
    x >>= f = .ok b ↔ ∃ a, x = .ok a ∧ f a = .ok b := by
  cases x with
  | error e => simp [bind, Except.bind]
  | ok a => simp [bind, Except.bind]

/-- Two computations in a row fail when the first does, or the second from the
first one's result. -/
theorem bind_eq_error_iff {x : Except ε α} {f : α → Except ε β} {e : ε} :
    x >>= f = .error e ↔ x = .error e ∨ ∃ a, x = .ok a ∧ f a = .error e := by
  cases x with
  | error e' => simp [bind, Except.bind]
  | ok a => simp [bind, Except.bind]

/-- An error in other words does not turn into a success. -/
theorem mapError_eq_ok_iff {ε' : Type} {f : ε → ε'} {x : Except ε α} {a : α} :
    x.mapError f = .ok a ↔ x = .ok a := by
  cases x with
  | error e => simp [Except.mapError]
  | ok b => simp [Except.mapError]

theorem mapError_eq_error_iff {ε' : Type} {f : ε → ε'} {x : Except ε α} {e : ε'} :
    x.mapError f = .error e ↔ ∃ e', x = .error e' ∧ f e' = e := by
  cases x with
  | error e' => simp [Except.mapError]
  | ok b => simp [Except.mapError]

@[simp] theorem mapError_ok {ε' : Type} (f : ε → ε') (a : α) :
    (Except.ok a).mapError f = .ok a := rfl

@[simp] theorem mapError_error {ε' : Type} (f : ε → ε') (e : ε) :
    (Except.error e : Except ε α).mapError f = .error (f e) := rfl

@[simp] theorem mapError_pure {ε' : Type} (f : ε → ε') (a : α) :
    (pure a : Except ε α).mapError f = pure a := rfl

/-- Whatever fails, errors in other words are the errors of the parts in other words. -/
@[simp] theorem mapError_bind {ε' : Type} (f : ε → ε') (x : Except ε α) (g : α → Except ε β) :
    (x >>= g).mapError f = x.mapError f >>= fun a => (g a).mapError f := by
  cases x <;> rfl

theorem mapError_mapM {ε' : Type} (f : ε → ε') (g : α → Except ε β) (xs : List α) :
    (xs.mapM g).mapError f = xs.mapM fun a => (g a).mapError f := by
  induction xs with
  | nil => rfl
  | cons x xs ih => simp only [List.mapM_cons, mapError_bind, mapError_pure, ih]

theorem map_eq_ok_iff {f : α → β} {x : Except ε α} {b : β} :
    x.map f = .ok b ↔ ∃ a, x = .ok a ∧ f a = b := by
  cases x with
  | error e => simp [Except.map]
  | ok a => simp [Except.map]

theorem map_eq_error_iff {f : α → β} {x : Except ε α} {e : ε} :
    x.map f = .error e ↔ x = .error e := by
  cases x with
  | error e' => simp [Except.map]
  | ok a => simp [Except.map]

theorem pure_eq_ok_iff {a b : α} : (pure a : Except ε α) = .ok b ↔ a = b := by
  simp [pure, Except.pure]

/-- A list is gone through to its end when every member succeeds. -/
theorem mapM_eq_ok_iff {f : α → Except ε β} {xs : List α} {ys : List β} :
    xs.mapM f = .ok ys ↔ List.Forall₂ (fun x y => f x = .ok y) xs ys := by
  induction xs generalizing ys with
  | nil => rw [List.mapM_nil, pure_eq_ok_iff, List.forall₂_nil_left_iff, eq_comm]
  | cons x xs ih =>
    rw [List.mapM_cons, List.forall₂_cons_left_iff]
    simp only [bind_eq_ok_iff, pure_eq_ok_iff, ih]
    constructor
    · rintro ⟨y, hy, ys', hys', rfl⟩
      exact ⟨y, ys', hy, hys', rfl⟩
    · rintro ⟨y, ys', hy, hys', rfl⟩
      exact ⟨y, hy, ys', hys', rfl⟩

theorem mapM_eq_ok {f : α → Except ε β} {g : α → β} {xs : List α}
    (h : ∀ x ∈ xs, f x = .ok (g x)) : xs.mapM f = .ok (xs.map g) := by
  rw [mapM_eq_ok_iff, List.forall₂_map_right_iff, List.forall₂_same]
  exact h

/-- A list that is not gone through to its end has a member that fails. -/
theorem exists_of_mapM_eq_error {f : α → Except ε β} {e : ε} {xs : List α}
    (h : xs.mapM f = .error e) : ∃ x ∈ xs, f x = .error e := by
  induction xs with
  | nil => cases h
  | cons x xs ih =>
    rw [List.mapM_cons, bind_eq_error_iff] at h
    rcases h with hx | ⟨y, _, hrest⟩
    · exact ⟨x, List.mem_cons_self, hx⟩
    · rcases bind_eq_error_iff.mp hrest with hxs | ⟨ys, _, hpure⟩
      · obtain ⟨x', hmem, hx'⟩ := ih hxs
        exact ⟨x', List.mem_cons_of_mem x hmem, hx'⟩
      · cases hpure

/-- The same for values that may be missing. -/
theorem map_eq_map_some_iff {f : α → Option β} {xs : List α} {ys : List β} :
    xs.map f = ys.map some ↔ List.Forall₂ (fun x y => f x = some y) xs ys := by
  rw [← List.forall₂_eq_eq_eq, List.forall₂_map_left_iff, List.forall₂_map_right_iff]

/-- The value that is there in a place, for the member in that place. -/
theorem getElem?_of_map_eq {f : α → Option β} {xs : List α} {ys : List β} {i : Nat} {x : α}
    (h : xs.map f = ys.map some) (hi : xs[i]? = some x) : ys[i]? = f x := by
  have hplace : (ys.map some)[i]? = some (f x) := by
    rw [← h, List.getElem?_map, hi, Option.map_some]
  rw [List.getElem?_map, Option.map_eq_some_iff] at hplace
  obtain ⟨y, hy, hfx⟩ := hplace
  rw [hy, hfx]

/-- The other way round, the member for a value. -/
theorem exists_getElem?_of_map_eq {f : α → Option β} {xs : List α} {ys : List β} {i : Nat} {y : β}
    (h : xs.map f = ys.map some) (hi : ys[i]? = some y) : ∃ x, xs[i]? = some x ∧ f x = some y := by
  have hplace : (xs.map f)[i]? = some (some y) := by
    rw [h, List.getElem?_map, hi, Option.map_some]
  rwa [List.getElem?_map, Option.map_eq_some_iff] at hplace

/-- What is on the right of a pairing has something on the left. -/
theorem exists_of_forall₂_of_mem {R : α → β → Prop} {xs : List α} {ys : List β} {y : β}
    (h : List.Forall₂ R xs ys) (hy : y ∈ ys) : ∃ x ∈ xs, R x y := by
  induction h with
  | nil => cases hy
  | cons hhead _ ih =>
    rcases List.mem_cons.mp hy with rfl | htail
    · exact ⟨_, List.mem_cons_self, hhead⟩
    · obtain ⟨x, hx, hxy⟩ := ih htail
      exact ⟨x, List.mem_cons_of_mem _ hx, hxy⟩

/-- Pairings agree when they do on the members of the lists. -/
theorem forall₂_congr_of_mem {R S : α → β → Prop} {xs : List α} {ys : List β}
    (h : ∀ x ∈ xs, ∀ y ∈ ys, (R x y ↔ S x y)) : List.Forall₂ R xs ys ↔ List.Forall₂ S xs ys := by
  rw [List.forall₂_iff_zip, List.forall₂_iff_zip]
  refine and_congr_right fun _ => forall₂_congr fun x y => imp_congr_right fun hxy => ?_
  obtain ⟨hx, hy⟩ := List.of_mem_zip hxy
  exact h x hx y hy

/-- A pairing without one of its pairs. -/
theorem forall₂_iff_eraseIdx {R : α → β → Prop} : ∀ {xs : List α} {ys : List β} {i : Nat} {x : α}
    {y : β}, xs[i]? = some x → ys[i]? = some y →
      (List.Forall₂ R xs ys ↔ R x y ∧ List.Forall₂ R (xs.eraseIdx i) (ys.eraseIdx i))
  | _ :: _, _ :: _, 0, _, _, hx, hy => by
    cases hx
    cases hy
    simp
  | a :: xs, b :: ys, i + 1, x, y, hx, hy => by
    rw [List.getElem?_cons_succ] at hx hy
    simp only [List.forall₂_cons, List.eraseIdx_cons_succ, forall₂_iff_eraseIdx hx hy]
    exact and_left_comm

/-- Lists with the same images are equally long. -/
theorem length_eq_of_map_eq {γ : Type} {f : α → γ} {g : β → γ} {xs : List α} {ys : List β}
    (h : xs.map f = ys.map g) : xs.length = ys.length := by
  rw [← List.length_map f, h, List.length_map]

/-- A closed computation is evaluated through the result that it has if it
succeeds; errors are not compared. -/
theorem eq_ok_of_toOption {r : Except ε α} {a : α} (h : r.toOption = some a) : r = .ok a := by
  cases r with
  | error e => cases h
  | ok b => rw [Option.some.inj h]

/-- Two computations succeed together, with the same result. -/
theorem toOption_eq_iff {x y : Except ε α} :
    x.toOption = y.toOption ↔ ∀ a, x = .ok a ↔ y = .ok a := by
  constructor
  · intro h a
    constructor
    · rintro rfl
      exact eq_ok_of_toOption h.symm
    · rintro rfl
      exact eq_ok_of_toOption h
  · intro h
    cases x with
    | ok a => rw [(h a).mp rfl]
    | error e =>
      cases y with
      | ok a => cases (h a).mpr rfl
      | error e' => rfl

theorem exists_error_of_toOption {r : Except ε α} (h : r.toOption = none) : ∃ e, r = .error e := by
  cases r with
  | error e => exact ⟨e, rfl⟩
  | ok b => cases h

end GraphShapes
