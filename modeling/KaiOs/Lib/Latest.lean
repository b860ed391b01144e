import Mathlib.Data.List.MinMax

/-! Greatest elements found in two stages: every part keeps the first of its elements with the
greatest coarse measure, and of what is kept the greatest by a finer measure is taken. -/
namespace Latest
open List
variable {α ι β δ : Type*} [LinearOrder β] [LinearOrder δ] {coarse : α → β} {fine : α → δ}

theorem argmax_append (l l' : List α) :
    argmax coarse (l ++ l') = l'.foldl (argAux fun b c => coarse c < coarse b) (argmax coarse l) :=
  List.foldl_append

/-- No part holds two elements that nothing exceeds in the coarse measure. -/
def Untied (coarse : α → β) (parts : ι → List α) : Prop :=
  ∀ i, ∀ a ∈ parts i, ∀ b ∈ parts i, coarse a = coarse b → (∀ j, ∀ c ∈ parts j, coarse c ≤ coarse a) → a = b

variable {parts : ι → List α} {kept : List α}

theorem exists_argmax (coarse : α → β) {a : α} {l : List α} (member : a ∈ l) :
    ∃ top, argmax coarse l = some top ∧ top ∈ l ∧ coarse a ≤ coarse top := by
  cases found : argmax coarse l with
  | none =>
      rw [argmax_eq_none.mp found] at member
      exact nomatch member
  | some top => exact ⟨top, rfl, argmax_mem found, le_of_mem_argmax member found⟩

/-- Nothing in any part exceeds what the second stage takes. -/
theorem staged_top (refines : ∀ a b, fine a ≤ fine b → coarse a ≤ coarse b) (untied : Untied coarse parts)
    (keeps : ∀ a, a ∈ kept ↔ ∃ i, argmax coarse (parts i) = some a) {m : α} (taken : argmax fine kept = some m) :
    (∃ i, m ∈ parts i) ∧ ∀ i, ∀ a ∈ parts i, fine a ≤ fine m := by
  have below {i : ι} {top : α} (found : argmax coarse (parts i) = some top) : fine top ≤ fine m :=
    le_of_mem_argmax ((keeps top).mpr ⟨i, found⟩) taken
  have latest (i : ι) (a : α) (member : a ∈ parts i) : coarse a ≤ coarse m := by
    obtain ⟨top, found, -, above⟩ := exists_argmax coarse member
    exact above.trans (refines top m (below found))
  obtain ⟨i, own⟩ := (keeps m).mp (argmax_mem taken)
  refine ⟨⟨i, argmax_mem own⟩, fun i a member => ?_⟩
  obtain ⟨top, found, inside, above⟩ := exists_argmax coarse member
  -- as late as `m`, an element is the one its part keeps
  rcases lt_or_ge (coarse a) (coarse m) with earlier | late
  · exact le_of_lt (not_le.mp fun exceeds => not_le.mpr earlier (refines m a exceeds))
  · have same : coarse a = coarse m := le_antisymm (latest i a member) late
    have tie : coarse a = coarse top := le_antisymm above ((refines top m (below found)).trans late)
    rw [untied i a member top inside tie fun j c other => (latest j c other).trans late]
    exact below found

theorem staged_none (keeps : ∀ a, a ∈ kept ↔ ∃ i, argmax coarse (parts i) = some a)
    (taken : argmax fine kept = none) (i : ι) : parts i = [] := by
  rw [argmax_eq_none] at taken
  subst taken
  cases found : argmax coarse (parts i) with
  | none => exact argmax_eq_none.mp found
  | some top => exact nomatch (keeps top).mpr ⟨i, found⟩

/-- What is taken depends on the elements only, not on how they are parted, ordered or repeated. -/
theorem staged_eq {ι' : Type*} {parts' : ι' → List α} {kept' : List α}
    (refines : ∀ a b, fine a ≤ fine b → coarse a ≤ coarse b)
    (untied : Untied coarse parts) (untied' : Untied coarse parts')
    (keeps : ∀ a, a ∈ kept ↔ ∃ i, argmax coarse (parts i) = some a)
    (keeps' : ∀ a, a ∈ kept' ↔ ∃ i, argmax coarse (parts' i) = some a)
    (elements : ∀ a, (∃ i, a ∈ parts i) ↔ ∃ i, a ∈ parts' i)
    (separates : ∀ i, ∀ a ∈ parts i, ∀ j, ∀ b ∈ parts j, fine a = fine b → a = b) :
    argmax fine kept = argmax fine kept' := by
  cases taken : argmax fine kept with
  | none =>
      cases taken' : argmax fine kept' with
      | none => rfl
      | some m' =>
          obtain ⟨i, member⟩ := (elements m').mpr (staged_top refines untied' keeps' taken').1
          rw [staged_none keeps taken] at member
          exact nomatch member
  | some m =>
      obtain ⟨⟨i, member⟩, top⟩ := staged_top refines untied keeps taken
      obtain ⟨i', member'⟩ := (elements m).mp ⟨i, member⟩
      cases taken' : argmax fine kept' with
      | none =>
          rw [staged_none keeps' taken'] at member'
          exact nomatch member'
      | some m' =>
          obtain ⟨inside, top'⟩ := staged_top refines untied' keeps' taken'
          obtain ⟨j, other⟩ := (elements m').mpr inside
          rw [separates i m member j m' other (le_antisymm (top' i' m member') (top j m' other))]

end Latest
