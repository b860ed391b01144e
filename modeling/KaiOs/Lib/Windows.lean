import Mathlib.Data.List.Nodup
import Mathlib.Order.Defs.PartialOrder

/-! Replay protection by windows. A window has an id and the last number it has taken. It
takes a message with its id and a number above. Windows may be lost at any time. -/
namespace Windows
variable {Id Num Msg : Type*}

structure State (Id Num Msg : Type*) where
  windows : List (Id × Num)
  taken : List Msg

theorem ids_set {windows : List (Id × Num)} {n : ℕ} {id : Id} {last : Num}
    (found : windows[n]? = some (id, last)) (next : Num) :
    (windows.set n (id, next)).map Prod.fst = windows.map Prod.fst := by
  have there : (windows.map Prod.fst)[n]? = some id := by rw [List.getElem?_map, found, Option.map_some]
  obtain ⟨range, same⟩ := List.getElem?_eq_some_iff.mp there
  rw [List.map_set]
  simp only [← same, List.set_getElem_self]

variable [Preorder Num] (window : Msg → Id) (number : Msg → Num)

/-- No message has been taken twice. The windows are open under ids that have been used, and
each stands at the messages of its id or above. -/
structure Guarded (used : List Id) (s : State Id Num Msg) : Prop where
  apart : (s.windows.map Prod.fst).Nodup
  opened : ∀ w ∈ s.windows, w.1 ∈ used
  seen : ∀ m ∈ s.taken, window m ∈ used
  below : ∀ m ∈ s.taken, ∀ w ∈ s.windows, w.1 = window m → number m ≤ w.2
  once : s.taken.Nodup

variable {window number} {used : List Id} {s : State Id Num Msg}

theorem guarded_nil : Guarded window number [] ⟨[], []⟩ where
  apart := .nil
  opened _ member := nomatch member
  seen _ member := nomatch member
  below _ member := nomatch member
  once := .nil

theorem Guarded.lose (h : Guarded window number used s) {windows : List (Id × Num)}
    (kept : windows.Sublist s.windows) : Guarded window number used ⟨windows, s.taken⟩ where
  apart := (kept.map Prod.fst).nodup h.apart
  opened w member := h.opened w (kept.subset member)
  seen := h.seen
  below m taken w member := h.below m taken w (kept.subset member)
  once := h.once

theorem Guarded.enter (h : Guarded window number used s) {id : Id} (unused : id ∉ used) (start : Num) :
    Guarded window number (used ++ [id]) ⟨s.windows ++ [(id, start)], s.taken⟩ := by
  refine ⟨?_, ?_, fun m taken => List.mem_append_left _ (h.seen m taken), ?_, h.once⟩
  · rw [List.map_append, List.map_singleton, ← List.concat_eq_append]
    refine List.Nodup.concat (fun again => ?_) h.apart
    obtain ⟨w, member, same⟩ := List.mem_map.mp again
    have used_id := h.opened w member
    rw [same] at used_id
    exact unused used_id
  · intro w member
    rcases List.mem_append.mp member with old | new
    · exact List.mem_append_left _ (h.opened w old)
    · rw [List.mem_singleton.mp new]
      exact List.mem_append_right _ (List.mem_singleton.mpr rfl)
  · intro m taken w member same
    rcases List.mem_append.mp member with old | new
    · exact h.below m taken w old same
    · rw [List.mem_singleton.mp new] at same
      exact absurd (h.seen m taken) (same ▸ unused)

theorem Guarded.place (h : Guarded window number used s) {n i : ℕ} {w w' : Id × Num}
    (found : s.windows[n]? = some w) (other : s.windows[i]? = some w') (same : w.1 = w'.1) : n = i := by
  have first : (s.windows.map Prod.fst)[n]? = some w.1 := by rw [List.getElem?_map, found, Option.map_some]
  have second : (s.windows.map Prod.fst)[i]? = some w.1 := by
    rw [List.getElem?_map, other, Option.map_some, same]
  have range := (List.getElem?_eq_some_iff.mp first).1
  exact (List.getElem?_inj range h.apart).mp (first.trans second.symm)

theorem Guarded.take (h : Guarded window number used s) {n : ℕ} {m : Msg} {last : Num}
    (found : s.windows[n]? = some (window m, last)) (above : last < number m) :
    Guarded window number used ⟨s.windows.set n (window m, number m), s.taken ++ [m]⟩ := by
  have inside := List.mem_of_getElem? found
  have used_id : window m ∈ used := h.opened _ inside
  refine ⟨?_, ?_, ?_, ?_, ?_⟩
  · rw [ids_set found]
    exact h.apart
  · intro w member
    rcases List.mem_or_eq_of_mem_set member with old | rfl
    · exact h.opened w old
    · exact used_id
  · intro m' taken
    rcases List.mem_append.mp taken with old | new
    · exact h.seen m' old
    · rw [List.mem_singleton.mp new]
      exact used_id
  · intro m' taken w member same
    obtain ⟨i, place⟩ := List.mem_iff_getElem?.mp member
    rw [List.getElem?_set] at place
    split_ifs at place with here inRange
    · -- the window itself, which has risen to the new message
      cases place
      rcases List.mem_append.mp taken with old | new
      · exact le_trans (h.below m' old _ inside same) (le_of_lt above)
      · rw [List.mem_singleton.mp new]
    · rcases List.mem_append.mp taken with old | new
      · exact h.below m' old w (List.mem_of_getElem? place) same
      · rw [List.mem_singleton.mp new] at same
        exact absurd (h.place found place same.symm) here
  · rw [← List.concat_eq_append]
    refine List.Nodup.concat (fun again => ?_) h.once
    have low : number m ≤ last := h.below m again _ inside rfl
    exact lt_irrefl _ (lt_of_lt_of_le above low)

end Windows
