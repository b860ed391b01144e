import Mathlib.Data.List.Basic

/-! A list whose items are awaited one after the other in a stream that may bring them in any order, more than
once or not at all. -/
namespace Awaited
variable {α : Type*} [DecidableEq α]

/-- How many of the awaited items have come in turn. -/
def caught : List α → List α → ℕ
  | _, [] => 0
  | [], _ :: _ => 0
  | a :: awaited, x :: stream => if x = a then caught awaited stream + 1 else caught (a :: awaited) stream

theorem caught_nil (stream : List α) : caught [] stream = 0 := by cases stream <;> rfl

theorem caught_le (awaited stream : List α) : caught awaited stream ≤ awaited.length := by
  induction stream generalizing awaited with
  | nil => exact Nat.zero_le _
  | cons x stream ih =>
      cases awaited with
      | nil => exact Nat.le_refl _
      | cons a awaited =>
          rw [caught]
          split_ifs
          · exact Nat.succ_le_succ (ih awaited)
          · exact ih (a :: awaited)

/-- Nobody who picks items from the stream gets further. -/
theorem take_sublist_iff {awaited stream : List α} {n : ℕ} (within : n ≤ awaited.length) :
    (awaited.take n).Sublist stream ↔ n ≤ caught awaited stream := by
  induction stream generalizing awaited n with
  | nil =>
      rw [List.sublist_nil, List.take_eq_nil_iff, caught, Nat.le_zero]
      refine or_iff_left_of_imp fun empty => ?_
      rw [empty] at within
      exact Nat.le_zero.mp within
  | cons x stream ih =>
      cases awaited with
      | nil =>
          rw [List.take_nil, caught_nil]
          exact iff_of_true (List.nil_sublist _) within
      | cons a awaited =>
          cases n with
          | zero => exact iff_of_true (List.nil_sublist _) (Nat.zero_le _)
          | succ n =>
              rw [List.take_succ_cons, caught]
              split_ifs with here
              · rw [here, List.cons_sublist_cons, ih (Nat.le_of_succ_le_succ within), Nat.succ_le_succ_iff]
              · rw [← ih within, List.take_succ_cons]
                exact ⟨.of_cons_of_ne (Ne.symm here), .cons x⟩

theorem sublist_iff {awaited stream : List α} :
    awaited.Sublist stream ↔ caught awaited stream = awaited.length := by
  have whole := @take_sublist_iff _ _ awaited stream _ (Nat.le_refl awaited.length)
  rw [List.take_length] at whole
  rw [whole]
  exact (Nat.le_antisymm_iff.trans (and_iff_right (caught_le awaited stream))).symm

theorem caught_take {awaited : List α} {n : ℕ} (within : n ≤ awaited.length) :
    caught awaited (awaited.take n) = n := by
  refine Nat.le_antisymm ?_ ((take_sublist_iff within).mp (.refl _))
  have picked := (take_sublist_iff (caught_le awaited (awaited.take n))).mpr (Nat.le_refl _)
  have shorter := picked.length_le
  rw [List.length_take, List.length_take, Nat.min_eq_left (caught_le _ _), Nat.min_eq_left within] at shorter
  exact shorter

end Awaited
