import Mathlib.Data.List.Basic

/-! Stores in which the first write of a key stays. What such a store holds depends on the
order of the writes exactly where two writes of one key differ. -/
namespace WriteOnce
variable {α κ β : Type*} [DecidableEq κ] (key : α → κ) (value : α → β)

/-- What a store holds after a list of writes. -/
def first (writes : List α) (k : κ) : Option β :=
  (writes.find? fun w => key w = k).map value

def Consistent (writes : List α) : Prop :=
  ∀ a ∈ writes, ∀ b ∈ writes, key a = key b → value a = value b

theorem first_append (writes more : List α) (k : κ) :
    first key value (writes ++ more) k = (first key value writes k).or (first key value more k) := by
  rw [first, List.find?_append, Option.map_or]
  rfl

theorem first_singleton (a : α) (k : κ) :
    first key value [a] k = if key a = k then some (value a) else none := by
  rw [first, List.find?_singleton]
  by_cases same : key a = k
  · rw [if_pos same, if_pos (decide_eq_true same), Option.map_some]
  · rw [if_neg same, if_neg (Bool.not_eq_true _ ▸ decide_eq_false same), Option.map_none]

theorem first_isSome {writes : List α} {a : α} (member : a ∈ writes) :
    (first key value writes (key a)).isSome := by
  rw [first, Option.isSome_map, List.find?_isSome]
  exact ⟨a, member, decide_eq_true rfl⟩

variable {key value}

theorem first_stays {writes : List α} {k : κ} {v : β} (h : first key value writes k = some v)
    (more : List α) : first key value (writes ++ more) k = some v := by
  rw [first_append, h, Option.some_or]

theorem mem_of_first {writes : List α} {k : κ} {v : β} (h : first key value writes k = some v) :
    ∃ a ∈ writes, key a = k ∧ value a = v := by
  obtain ⟨a, found, rfl⟩ := Option.map_eq_some_iff.mp h
  have same : decide (key a = k) = true := List.find?_some (p := fun w => decide (key w = k)) found
  exact ⟨a, List.mem_of_find?_eq_some found, of_decide_eq_true same, rfl⟩

theorem first_of_consistent {writes : List α} (consistent : Consistent key value writes) {a : α}
    (member : a ∈ writes) : first key value writes (key a) = some (value a) := by
  obtain ⟨v, found⟩ := Option.isSome_iff_exists.mp (first_isSome key value member)
  obtain ⟨b, inside, same, rfl⟩ := mem_of_first found
  rw [found, consistent b inside a member same]

theorem first_perm {writes writes' : List α} (consistent : Consistent key value writes)
    (perm : writes.Perm writes') (k : κ) : first key value writes' k = first key value writes k := by
  cases found : first key value writes' k with
  | some v =>
      obtain ⟨a, member, rfl, rfl⟩ := mem_of_first found
      exact (first_of_consistent consistent (perm.mem_iff.mpr member)).symm
  | none =>
      cases found' : first key value writes k with
      | none => rfl
      | some v =>
          obtain ⟨a, member, rfl, rfl⟩ := mem_of_first found'
          have held := first_isSome key value (perm.mem_iff.mp member)
          rw [found] at held
          cases held

theorem consistent_of_perm {writes : List α}
    (same : ∀ writes', writes.Perm writes' → first key value writes' = first key value writes) :
    Consistent key value writes := by
  have held (a : α) (member : a ∈ writes) : first key value writes (key a) = some (value a) := by
    obtain ⟨before, after, rfl⟩ := List.append_of_mem member
    rw [← same (a :: (before ++ after)) List.perm_middle, ← List.singleton_append, first_append,
      first_singleton, if_pos rfl, Option.some_or]
  intro a ha b hb shared
  have both := held a ha
  rw [shared, held b hb] at both
  exact (Option.some.inj both).symm

section Accepted
variable {τ : Type*} (key value) (tag : β → τ)

/-- Every write agrees with what is held under its key already, as far as the tag tells. -/
def Accepted (writes : List α) : Prop :=
  ∀ begun a, begun ++ [a] <+: writes → ∀ v, first key value begun (key a) = some v → tag v = tag (value a)

theorem accepted_iff (writes : List α) : Accepted key value tag writes ↔
    ∀ a ∈ writes, ∀ b ∈ writes, key a = key b → tag (value a) = tag (value b) := by
  constructor
  · intro accepted
    have held (a : α) (member : a ∈ writes) :
        ∃ v, first key value writes (key a) = some v ∧ tag v = tag (value a) := by
      obtain ⟨begun, rest, rfl⟩ := List.append_of_mem member
      have agrees := accepted begun a ⟨rest, List.append_cons begun a rest ▸ rfl⟩
      rw [List.append_cons]
      cases taken : first key value begun (key a) with
      | some v => exact ⟨v, first_stays (first_stays taken [a]) rest, agrees v taken⟩
      | none =>
          refine ⟨value a, first_stays ?_ rest, rfl⟩
          rw [first_append, taken, Option.none_or, first_singleton, if_pos rfl]
    intro a ha b hb same
    obtain ⟨v, found, tagged⟩ := held a ha
    obtain ⟨w, found', tagged'⟩ := held b hb
    rw [same, found'] at found
    cases found
    exact tagged.symm.trans tagged'
  · intro agree begun a inside v taken
    obtain ⟨b, member, same, rfl⟩ := mem_of_first taken
    have before : ∀ c ∈ begun ++ [a], c ∈ writes := fun c h => inside.subset h
    exact agree b (before b (List.mem_append_left _ member)) a
      (before a (List.mem_append_right _ List.mem_cons_self)) same

variable {key value tag}

theorem Accepted.perm {writes writes' : List α} (accepted : Accepted key value tag writes)
    (perm : writes.Perm writes') : Accepted key value tag writes' := by
  rw [accepted_iff] at accepted ⊢
  intro a ha b hb same
  exact accepted a (perm.mem_iff.mpr ha) b (perm.mem_iff.mpr hb) same

end Accepted

end WriteOnce
