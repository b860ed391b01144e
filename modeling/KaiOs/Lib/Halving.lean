import Mathlib.Data.List.Chain
import Mathlib.Data.List.Iterate
import Mathlib.Data.Nat.Log

/-! Lists that are halved in rounds, rounding up, until one element is left: how many rounds there are, and
how long each of the lists is. -/
namespace Halving
variable {β : Type*} {f : List β → List β} {l : List β}

/-- A round leaves half of the elements, rounded up. -/
def Halves (f : List β → List β) : Prop := ∀ l, (f l).length = (l.length + 1) / 2

/-- A list and what the rounds leave of it. -/
def rounds (f : List β → List β) (l : List β) : List (List β) := List.iterate f l (Nat.clog 2 l.length + 1)

theorem length_rounds (f : List β → List β) (l : List β) : (rounds f l).length = Nat.clog 2 l.length + 1 :=
  List.length_iterate ..

theorem rounds_of_few (few : l.length ≤ 1) : rounds f l = [l] := by
  rw [rounds, Nat.clog_of_right_le_one few]
  rfl

/-- One round takes one off the logarithm. -/
theorem clog_of_more {n : ℕ} (more : 1 < n) : Nat.clog 2 n = Nat.clog 2 ((n + 1) / 2) + 1 :=
  Nat.clog_of_two_le Nat.one_lt_two more

theorem rounds_of_more (halves : Halves f) (more : 1 < l.length) : rounds f l = l :: rounds f (f l) := by
  rw [rounds, clog_of_more more, ← halves l]
  rfl

theorem getElem?_rounds_iff {i : ℕ} {level : List β} :
    (rounds f l)[i]? = some level ↔ i ≤ Nat.clog 2 l.length ∧ f^[i] l = level := by
  by_cases inside : i ≤ Nat.clog 2 l.length
  · rw [rounds, List.getElem?_iterate f l _ i (Nat.lt_succ_of_le inside), and_iff_right inside, Option.some.injEq]
  · have beyond : (rounds f l).length ≤ i := by
      rw [length_rounds]
      omega
    rw [List.getElem?_eq_none beyond]
    exact iff_of_false (fun h => by cases h) fun h => inside h.1

section
variable (halves : Halves f)
include halves

theorem iterate_length_le_one_iff (i : ℕ) (l : List β) : (f^[i] l).length ≤ 1 ↔ l.length ≤ 2 ^ i := by
  induction i generalizing l with
  | zero => exact Iff.rfl
  | succ i ih =>
      rw [Function.iterate_succ_apply, ih, halves, Nat.pow_succ]
      omega

theorem iterate_length_pos (full : l ≠ []) (i : ℕ) : 0 < (f^[i] l).length := by
  induction i with
  | zero => exact List.length_pos_iff.mpr full
  | succ i ih =>
      rw [Function.iterate_succ_apply', halves]
      omega

theorem rounds_halved (l : List β) :
    (rounds f l).IsChain fun lower upper => upper.length = (lower.length + 1) / 2 := by
  rw [List.isChain_iff_getElem]
  intro i inside
  simp only [rounds, List.getElem_iterate, Function.iterate_succ_apply', halves _]

theorem length_eq_one_iff (full : l ≠ []) {i : ℕ} {level : List β} (here : (rounds f l)[i]? = some level) :
    level.length = 1 ↔ i + 1 = (rounds f l).length := by
  obtain ⟨inside, rfl⟩ := getElem?_rounds_iff.mp here
  have pos := iterate_length_pos halves full i
  have short : (f^[i] l).length ≤ 1 ↔ Nat.clog 2 l.length ≤ i := by
    rw [iterate_length_le_one_iff halves, Nat.clog_le_iff_le_pow Nat.one_lt_two]
  rw [length_rounds]
  omega

theorem getLast?_rounds (full : l ≠ []) : ∃ b, (rounds f l).getLast? = some [b] := by
  have last : (rounds f l)[Nat.clog 2 l.length]? = some (f^[Nat.clog 2 l.length] l) :=
    getElem?_rounds_iff.mpr ⟨le_rfl, rfl⟩
  have single := (length_eq_one_iff halves full last).mpr (length_rounds f l).symm
  obtain ⟨b, shape⟩ := List.length_eq_one_iff.mp single
  refine ⟨b, ?_⟩
  rw [List.getLast?_eq_getElem?, length_rounds, Nat.add_sub_cancel, last, shape]

end

end Halving
