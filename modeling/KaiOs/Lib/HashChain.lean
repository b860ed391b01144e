import Mathlib.Data.List.Forall2
import Mathlib.Data.List.Induction
import Mathlib.Data.Set.Function

/-! Hash chains over any kind of record. Each record names the hash of the record
before it, the first one names a fixed start value. The chain binds its history:
the last hash determines every record, up to what equal hashes say about two records. -/
namespace HashChain

variable {α η : Type*} (prev hash : α → η)

/-- Every record carries the hash of its predecessor, the first one carries `g`. -/
def Linked : η → List α → Prop
  | _, [] => True
  | g, x :: xs => prev x = g ∧ Linked (hash x) xs

/-- The hash a next record has to carry. -/
def tip : η → List α → η
  | g, [] => g
  | _, x :: xs => tip (hash x) xs

@[simp] theorem tip_nil (g : η) : tip hash g [] = g := rfl

@[simp] theorem tip_append (g : η) (xs ys : List α) :
    tip hash g (xs ++ ys) = tip hash (tip hash g xs) ys := by
  induction xs generalizing g with
  | nil => rfl
  | cons x xs ih => exact ih (hash x)

theorem tip_concat (g : η) (xs : List α) (x : α) : tip hash g (xs ++ [x]) = hash x :=
  tip_append hash g xs [x]

theorem tip_eq_getLast? (g : η) (xs : List α) : tip hash g xs = (xs.getLast?.map hash).getD g := by
  induction xs using List.reverseRecOn with
  | nil => rfl
  | append_singleton xs x ih => rw [tip_concat, List.getLast?_concat, Option.map_some, Option.getD_some]

/-- For lists of one length, equal tips and equal last hashes are the same. -/
theorem tip_eq_iff_getLast? {g : η} {xs ys : List α} (lengths : ys.length = xs.length) :
    tip hash g ys = tip hash g xs ↔ ys.getLast?.map hash = xs.getLast?.map hash := by
  cases xs using List.reverseRecOn with
  | nil =>
      obtain rfl := List.length_eq_zero_iff.mp lengths
      exact iff_of_true rfl rfl
  | append_singleton xs x =>
      cases ys using List.reverseRecOn with
      | nil => simp at lengths
      | append_singleton ys y =>
          rw [tip_concat, tip_concat, List.getLast?_concat, List.getLast?_concat, Option.map_some,
            Option.map_some, Option.some_inj]

theorem linked_append (g : η) (xs ys : List α) :
    Linked prev hash g (xs ++ ys) ↔ Linked prev hash g xs ∧ Linked prev hash (tip hash g xs) ys := by
  induction xs generalizing g with
  | nil => simp only [List.nil_append, Linked, tip_nil, true_and]
  | cons x xs ih => simp only [List.cons_append, Linked, tip, ih, and_assoc]

theorem linked_concat (g : η) (xs : List α) (x : α) :
    Linked prev hash g (xs ++ [x]) ↔ Linked prev hash g xs ∧ prev x = tip hash g xs := by
  simp only [linked_append, Linked, and_true]

/-- A record of a linked chain names the tip of everything before it. -/
theorem Linked.prev_getElem {g : η} {xs : List α} (h : Linked prev hash g xs) {i : ℕ} {x : α}
    (at_i : xs[i]? = some x) : prev x = tip hash g (xs.take i) := by
  obtain ⟨inside, rfl⟩ := List.getElem?_eq_some_iff.mp at_i
  rw [← List.take_append_drop i xs, List.drop_eq_getElem_cons inside, linked_append] at h
  exact h.2.1

theorem Linked.take {g : η} {xs : List α} (h : Linked prev hash g xs) (n : ℕ) :
    Linked prev hash g (xs.take n) := by
  rw [← List.take_append_drop n xs, linked_append] at h
  exact h.1

/-- Two chains with one tip agree record by record, as far as equal hashes relate two
records. The relation only has to settle the predecessor, and no record may hash to
the start value. -/
theorem Linked.forall₂_of_tip {g : η} {S : Set α} {R : α → α → Prop} {xs ys : List α}
    (relate : ∀ x ∈ S, ∀ y ∈ S, hash x = hash y → R x y)
    (settles : ∀ x y, R x y → prev x = prev y) (fresh : ∀ x ∈ S, hash x ≠ g)
    (hx : Linked prev hash g xs) (hy : Linked prev hash g ys)
    (inx : ∀ x ∈ xs, x ∈ S) (iny : ∀ y ∈ ys, y ∈ S)
    (same : tip hash g xs = tip hash g ys) : List.Forall₂ R xs ys := by
  induction xs using List.reverseRecOn generalizing ys with
  | nil =>
      cases ys using List.reverseRecOn with
      | nil => exact .nil
      | append_singleton ys y =>
          rw [tip_nil, tip_concat] at same
          exact False.elim (fresh y (iny y (by simp)) same.symm)
  | append_singleton xs x ih =>
      cases ys using List.reverseRecOn with
      | nil =>
          rw [tip_nil, tip_concat] at same
          exact False.elim (fresh x (inx x (by simp)) same)
      | append_singleton ys y =>
          rw [tip_concat, tip_concat] at same
          rw [linked_concat] at hx hy
          have related := relate x (inx x (by simp)) y (iny y (by simp)) same
          have before : tip hash g xs = tip hash g ys := by
            rw [← hx.2, ← hy.2, settles x y related]
          have earlier := ih hx.1 hy.1 (fun z m => inx z (List.mem_append_left _ m))
            (fun z m => iny z (List.mem_append_left _ m)) before
          exact List.rel_append earlier (.cons related .nil)

/-- Where the hash is injective on the records used, one tip means one history. -/
theorem Linked.eq_of_tip {g : η} {S : Set α} {xs ys : List α} (inj : Set.InjOn hash S)
    (fresh : ∀ x ∈ S, hash x ≠ g) (hx : Linked prev hash g xs) (hy : Linked prev hash g ys)
    (inx : ∀ x ∈ xs, x ∈ S) (iny : ∀ y ∈ ys, y ∈ S)
    (same : tip hash g xs = tip hash g ys) : xs = ys := by
  have agree := Linked.forall₂_of_tip prev hash (R := Eq) (fun x mx y my => inj mx my)
    (fun _ _ => congrArg prev) fresh hx hy inx iny same
  exact List.forall₂_eq_eq_eq ▸ agree

end HashChain
