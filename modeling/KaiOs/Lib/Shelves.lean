import KaiOs.Lib.WriteOnce
import Mathlib.Data.List.Induction
import Std.Data.ExtTreeMap

/-! Maps of maps, as one map with two keys: a shelf is opened by the first entry put on it, and is
searched from its highest entry down. Shelves on which nothing is replaced are a store in which the
first write stays. -/

abbrev Shelves (κ ν ε : Type*) [Ord κ] [Ord ν] := Std.ExtTreeMap κ (Std.ExtTreeMap ν ε compare) compare

namespace Shelves
variable {κ ν ε : Type*} [Ord κ] [Std.TransOrd κ] [Ord ν] [Std.TransOrd ν]

omit [Ord ν] [Std.TransOrd ν] in
/-- The first hit in a descending list is its highest. -/
theorem isLE_of_find? {α : Type*} (key : α → κ) {xs : List α}
    (descending : xs.Pairwise fun a b => compare (key b) (key a) = .lt) {p : α → Bool} {a b : α}
    (found : xs.find? p = some a) (member : b ∈ xs) (hit : p b = true) :
    (compare (key b) (key a)).isLE = true := by
  induction xs with
  | nil => cases member
  | cons x xs ih =>
      obtain ⟨below, later⟩ := List.pairwise_cons.mp descending
      rw [List.find?_cons] at found
      split at found
      · cases found
        obtain rfl | inside := List.mem_cons.mp member
        · exact Std.ReflCmp.isLE_rfl
        · exact (congrArg Ordering.isLE (below b inside)).trans rfl
      · next miss =>
          obtain rfl | inside := List.mem_cons.mp member
          · cases miss.symm.trans hit
          · exact ih later found inside

/-- The entry under two keys. -/
def entry (s : Shelves κ ν ε) (k : κ) (v : ν) : Option ε := s[k]?.bind fun shelf => shelf[v]?

def shelf (s : Shelves κ ν ε) (k : κ) : Std.ExtTreeMap ν ε compare := s[k]?.getD ∅

def put (s : Shelves κ ν ε) (k : κ) (v : ν) (e : ε) : Shelves κ ν ε := s.insert k ((s.shelf k).insert v e)

/-- No shelf stands empty. -/
def Filled (s : Shelves κ ν ε) : Prop := ∀ k shelf, s[k]? = some shelf → ∃ v, (s.entry k v).isSome

@[simp] theorem shelf_entry (s : Shelves κ ν ε) (k : κ) (v : ν) : (s.shelf k)[v]? = s.entry k v := by
  rw [shelf, entry]
  cases s[k]? with
  | none => rw [Option.getD_none, Std.ExtTreeMap.getElem?_empty, Option.bind_none]
  | some shelf => rw [Option.getD_some, Option.bind_some]

omit [Ord κ] [Std.TransOrd κ] in
/-- Searched from above, a shelf gives its highest hit. -/
theorem highest_of_find? [Std.LawfulEqOrd ν] {shelf : Std.ExtTreeMap ν ε compare} {p : ε → Bool} {e : ε}
    (found : (shelf.toList.reverse.map Prod.snd).find? p = some e) :
    ∃ v : ν, shelf[v]? = some e ∧ p e = true ∧
      ∀ (v' : ν) e', shelf[v']? = some e' → p e' = true → (compare v' v).isLE = true := by
  rw [List.find?_map] at found
  obtain ⟨slot, first, rfl⟩ := Option.map_eq_some_iff.mp found
  have inside : (slot.1, slot.2) ∈ shelf.toList := List.mem_reverse.mp (List.mem_of_find?_eq_some first)
  have hits : (p ∘ Prod.snd) slot = true := List.find?_some first
  refine ⟨slot.1, Std.ExtTreeMap.mem_toList_iff_getElem?_eq_some.mp inside, hits, ?_⟩
  intro v' e' held hit
  have descending : shelf.toList.reverse.Pairwise fun a b => compare b.1 a.1 = .lt :=
    List.pairwise_reverse.mpr Std.ExtTreeMap.ordered_keys_toList
  have member : (v', e') ∈ shelf.toList.reverse :=
    List.mem_reverse.mpr (Std.ExtTreeMap.mem_toList_iff_getElem?_eq_some.mpr held)
  exact isLE_of_find? Prod.fst descending first member hit

omit [Ord κ] [Std.TransOrd κ] in
theorem find?_isSome [Std.LawfulEqOrd ν] {shelf : Std.ExtTreeMap ν ε compare} {p : ε → Bool} {v : ν} {e : ε}
    (held : shelf[v]? = some e) (hit : p e = true) :
    ((shelf.toList.reverse.map Prod.snd).find? p).isSome := by
  rw [List.find?_isSome]
  refine ⟨e, List.mem_map.mpr ⟨(v, e), List.mem_reverse.mpr ?_, rfl⟩, hit⟩
  exact Std.ExtTreeMap.mem_toList_iff_getElem?_eq_some.mpr held

theorem filled_empty : Filled (∅ : Shelves κ ν ε) := by
  intro k shelf found
  rw [Std.ExtTreeMap.getElem?_empty] at found
  cases found

variable [Std.LawfulEqOrd κ]

theorem insert_shelf {s : Shelves κ ν ε} {k : κ} {v : ν} {e : ε} (taken : s.entry k v = some e) :
    s.insert k (s.shelf k) = s := by
  obtain ⟨shelf, found, -⟩ := Option.bind_eq_some_iff.mp taken
  apply Std.ExtTreeMap.ext_getElem?
  intro k'
  rw [Std.ExtTreeMap.getElem?_insert]
  split_ifs with same
  · rw [← Std.LawfulEqCmp.compare_eq_iff_eq.mp same, Shelves.shelf, found, Option.getD_some]
  · rfl

variable [Std.LawfulEqOrd ν]

/-- Shelves without empty ones are told by their entries. -/
theorem ext {s t : Shelves κ ν ε} (filled : s.Filled) (filled' : t.Filled)
    (same : ∀ k v, s.entry k v = t.entry k v) : s = t := by
  apply Std.ExtTreeMap.ext_getElem?
  intro k
  cases found : s[k]? with
  | none =>
      cases found' : t[k]? with
      | none => rfl
      | some shelf =>
          obtain ⟨v, held⟩ := filled' k shelf found'
          rw [← same, entry, found] at held
          cases held
  | some shelf =>
      cases found' : t[k]? with
      | none =>
          obtain ⟨v, held⟩ := filled k shelf found
          rw [same, entry, found'] at held
          cases held
      | some shelf' =>
          have inner : shelf = shelf' := by
            apply Std.ExtTreeMap.ext_getElem?
            intro v
            have entries := same k v
            rwa [entry, entry, found, found', Option.bind_some, Option.bind_some] at entries
          rw [inner]

variable [DecidableEq κ] [DecidableEq ν]

theorem entry_put (s : Shelves κ ν ε) (k : κ) (v : ν) (e : ε) (k' : κ) (v' : ν) :
    (s.put k v e).entry k' v' = if (k, v) = (k', v') then some e else s.entry k' v' := by
  rw [entry, put, Std.ExtTreeMap.getElem?_insert]
  by_cases same : k = k'
  · subst same
    rw [if_pos Std.ReflCmp.compare_self, Option.bind_some, Std.ExtTreeMap.getElem?_insert, shelf_entry]
    simp only [Std.LawfulEqCmp.compare_eq_iff_eq, Prod.mk.injEq, true_and]
  · rw [if_neg (fun h => same (Std.LawfulEqCmp.compare_eq_iff_eq.mp h)),
      if_neg fun h => same (congrArg Prod.fst h), entry]

theorem Filled.put {s : Shelves κ ν ε} (filled : s.Filled) (k : κ) (v : ν) (e : ε) : (s.put k v e).Filled := by
  intro k' shelf found
  by_cases same : k = k'
  · refine ⟨v, ?_⟩
    rw [entry_put, if_pos (by rw [same])]
    rfl
  · rw [Shelves.put, Std.ExtTreeMap.getElem?_insert,
      if_neg fun h => same (Std.LawfulEqCmp.compare_eq_iff_eq.mp h)] at found
    obtain ⟨v', held⟩ := filled k' shelf found
    refine ⟨v', ?_⟩
    rwa [entry_put, if_neg fun h => same (congrArg Prod.fst h)]

/-- An entry that stands already stays. -/
def putNew (s : Shelves κ ν ε) (k : κ) (v : ν) (e : ε) : Shelves κ ν ε :=
  if (s.entry k v).isSome then s else s.put k v e

theorem entry_putNew (s : Shelves κ ν ε) (k : κ) (v : ν) (e : ε) (k' : κ) (v' : ν) :
    (s.putNew k v e).entry k' v' = (s.entry k' v').or (if (k, v) = (k', v') then some e else none) := by
  unfold putNew
  cases taken : s.entry k v with
  | none =>
      rw [Option.isSome_none, if_neg Bool.false_ne_true, entry_put]
      by_cases same : (k, v) = (k', v')
      · cases same
        rw [if_pos rfl, if_pos rfl, taken, Option.none_or]
      · rw [if_neg same, if_neg same, Option.or_none]
  | some held =>
      rw [Option.isSome_some, if_pos rfl]
      by_cases same : (k, v) = (k', v')
      · cases same
        rw [taken, Option.some_or]
      · rw [if_neg same, Option.or_none]

theorem Filled.putNew {s : Shelves κ ν ε} (filled : s.Filled) (k : κ) (v : ν) (e : ε) :
    (s.putNew k v e).Filled := by
  unfold Shelves.putNew
  split
  · exact filled
  · exact filled.put k v e

section Collect
open WriteOnce
variable {α : Type*} (key : α → κ × ν) (value : α → ε)

/-- The shelves behind a list of writes. -/
def collect (writes : List α) : Shelves κ ν ε :=
  writes.foldl (fun s w => s.putNew (key w).1 (key w).2 (value w)) ∅

omit [Std.LawfulEqOrd κ] [Std.LawfulEqOrd ν] [DecidableEq κ] [DecidableEq ν] in
theorem collect_concat (writes : List α) (w : α) :
    collect key value (writes ++ [w]) = (collect key value writes).putNew (key w).1 (key w).2 (value w) :=
  List.foldl_concat ..

theorem entry_collect (writes : List α) (k : κ) (v : ν) :
    (collect key value writes).entry k v = first key value writes (k, v) := by
  induction writes using List.reverseRecOn with
  | nil => rw [collect, List.foldl_nil, entry, Std.ExtTreeMap.getElem?_empty]; rfl
  | append_singleton writes w ih => rw [collect_concat, entry_putNew, ih, first_append, first_singleton]

theorem filled_collect (writes : List α) : (collect key value writes).Filled := by
  induction writes using List.reverseRecOn with
  | nil => exact filled_empty
  | append_singleton writes w ih =>
      rw [collect_concat]
      exact ih.putNew _ _ _

variable {key value}

/-- The order of consistent writes leaves no trace. -/
theorem collect_perm {writes writes' : List α} (consistent : Consistent key value writes)
    (perm : writes.Perm writes') : collect key value writes' = collect key value writes := by
  apply ext (filled_collect key value writes') (filled_collect key value writes)
  intro k v
  rw [entry_collect, entry_collect, first_perm consistent perm]

end Collect

end Shelves
