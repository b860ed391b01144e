import Mathlib.Data.List.Basic

/-! Loops that visit the elements of a list by their indices, replace each one and leave effects
behind. What an observer of one index sees of a loop is what the visit of that index leaves. -/
namespace Visits
variable {α ε β : Type*} (f : ℕ → α → α × List ε)

/-- The loop from the index `i` on, in order. -/
def visitFrom : ℕ → List α → List α × List ε
  | _, [] => ([], [])
  | i, x :: xs => ((f i x).1 :: (visitFrom (i + 1) xs).1, (f i x).2 ++ (visitFrom (i + 1) xs).2)

/-- The same loop from the last element back to the index `i`. -/
def visitBack : ℕ → List α → List α × List ε
  | _, [] => ([], [])
  | i, x :: xs => ((f i x).1 :: (visitBack (i + 1) xs).1, (visitBack (i + 1) xs).2 ++ (f i x).2)

variable {f}

theorem visitBack_fst (i : ℕ) (xs : List α) : (visitBack f i xs).1 = (visitFrom f i xs).1 := by
  induction xs generalizing i with
  | nil => rfl
  | cons x xs ih => rw [visitBack, visitFrom, ih]

theorem getElem?_visitFrom (i : ℕ) (xs : List α) (j : ℕ) :
    (visitFrom f i xs).1[j]? = xs[j]?.map fun x => (f (i + j) x).1 := by
  induction xs generalizing i j with
  | nil => rfl
  | cons x xs ih =>
      cases j with
      | zero => rfl
      | succ j =>
          rw [visitFrom, List.getElem?_cons_succ, List.getElem?_cons_succ, ih, Nat.succ_add_eq_add_succ]

section Seen
variable (view : ℕ → ε → Option β) (own : ∀ i j x, i ≠ j → (f j x).2.filterMap (view i) = [])
include own

theorem seen_before {i j : ℕ} (before : j < i) (xs : List α) :
    (visitFrom f i xs).2.filterMap (view j) = [] ∧ (visitBack f i xs).2.filterMap (view j) = [] := by
  induction xs generalizing i with
  | nil => exact ⟨rfl, rfl⟩
  | cons x xs ih =>
      obtain ⟨forth, back⟩ := ih (Nat.lt_succ_of_lt before)
      simp only [visitFrom, visitBack, List.filterMap_append, forth, back,
        own j i x (Nat.ne_of_lt before), List.append_nil, and_self]

theorem seen_visit (i : ℕ) (xs : List α) (j : ℕ) :
    (visitFrom f i xs).2.filterMap (view (i + j)) =
        (xs[j]?.map fun x => (f (i + j) x).2.filterMap (view (i + j))).getD [] ∧
      (visitBack f i xs).2.filterMap (view (i + j)) =
        (xs[j]?.map fun x => (f (i + j) x).2.filterMap (view (i + j))).getD [] := by
  induction xs generalizing i j with
  | nil => exact ⟨rfl, rfl⟩
  | cons x xs ih =>
      simp only [visitFrom, visitBack, List.filterMap_append]
      cases j with
      | zero =>
          obtain ⟨forth, back⟩ := seen_before view own (Nat.lt_succ_self i) xs
          rw [Nat.add_zero, forth, back, List.append_nil, List.nil_append]
          exact ⟨rfl, rfl⟩
      | succ j =>
          have other : i + (j + 1) ≠ i := by omega
          rw [own _ i x other, List.nil_append, List.append_nil, ← Nat.succ_add_eq_add_succ]
          exact ih (i + 1) j

end Seen
end Visits
