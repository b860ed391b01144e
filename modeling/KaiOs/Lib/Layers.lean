import Mathlib.Data.List.Basic
import Mathlib.Logic.Relation

/-! Lists of keyed elements, newest first, in which an element only refers to keys of older
elements. Such a list has no cycle. -/
namespace Layers
variable {α κ : Type*} (key : α → κ) (refers : α → List κ)

inductive Layered : List α → Prop
  | nil : Layered []
  | cons {x : α} {xs : List α} (fresh : ∀ y ∈ xs, key y ≠ key x)
      (closed : ∀ k ∈ refers x, ∃ y ∈ xs, key y = k) (older : Layered xs) : Layered (x :: xs)

/-- `a` refers to `b`, both in the list. -/
def Edge (xs : List α) (a b : α) : Prop := a ∈ xs ∧ b ∈ xs ∧ key b ∈ refers a

variable {key refers}

theorem Layered.closed {xs : List α} (h : Layered key refers xs) {x : α} (member : x ∈ xs) {k : κ}
    (refer : k ∈ refers x) : ∃ y ∈ xs, key y = k := by
  induction h with
  | nil => cases member
  | cons fresh closed older ih =>
      obtain rfl | inside := List.mem_cons.mp member
      · obtain ⟨y, hy, same⟩ := closed k refer
        exact ⟨y, List.mem_cons_of_mem _ hy, same⟩
      · obtain ⟨y, hy, same⟩ := ih inside
        exact ⟨y, List.mem_cons_of_mem _ hy, same⟩

/-- An edge leads to an older element. -/
theorem Layered.edge_older {x : α} {xs : List α} (h : Layered key refers (x :: xs)) {a b : α}
    (edge : Edge key refers (x :: xs) a b) : b ∈ xs := by
  obtain ⟨ha, hb, refer⟩ := edge
  cases h with
  | cons fresh closed older =>
      obtain rfl | inside := List.mem_cons.mp hb
      · obtain ⟨y, hy, same⟩ : ∃ y ∈ xs, key y = key b := by
          obtain rfl | ina := List.mem_cons.mp ha
          · exact closed _ refer
          · exact older.closed ina refer
        exact absurd same (fresh y hy)
      · exact inside

theorem Layered.path_end {x : α} {xs : List α} (h : Layered key refers (x :: xs)) {a b : α}
    (path : Relation.TransGen (Edge key refers (x :: xs)) a b) : b ∈ xs := by
  obtain ⟨c, -, edge⟩ := Relation.TransGen.tail'_iff.mp path
  exact h.edge_older edge

theorem Layered.path_older {x : α} {xs : List α} (h : Layered key refers (x :: xs)) {a b : α}
    (path : Relation.TransGen (Edge key refers (x :: xs)) a b) (start : a ∈ xs) :
    Relation.TransGen (Edge key refers xs) a b := by
  induction path with
  | single step => exact .single ⟨start, h.edge_older step, step.2.2⟩
  | tail before step ih => exact ih.tail ⟨h.path_end before, h.edge_older step, step.2.2⟩

theorem Layered.acyclic {xs : List α} (h : Layered key refers xs) (a : α) :
    ¬ Relation.TransGen (Edge key refers xs) a a := by
  induction h with
  | nil =>
      intro path
      obtain ⟨b, -, edge⟩ := Relation.TransGen.tail'_iff.mp path
      cases edge.1
  | cons fresh closed older ih =>
      have whole := Layered.cons fresh closed older
      exact fun path => ih (whole.path_older path (whole.path_end path))

end Layers
