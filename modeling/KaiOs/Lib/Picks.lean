import Mathlib.Data.List.Induction
import Mathlib.Data.List.Nodup

/-! Items taken out of a list by their keys, for each key asked the first item that still has it. -/
namespace Picks
variable {α κ : Type*} [DecidableEq κ] (key : α → κ)

/-- The first item with a key, if there is one. -/
def first (k : κ) (xs : List α) : Option α := xs.find? fun x => key x = k

/-- The other items. -/
def without (k : κ) (xs : List α) : List α := xs.eraseP fun x => key x = k

/-- The items in the order they are taken. -/
def picked : List κ → List α → List α
  | [], _ => []
  | k :: ks, xs => (first key k xs).toList ++ picked ks (without key k xs)

/-- The items not taken. -/
def unpicked (ks : List κ) (xs : List α) : List α := ks.foldl (fun xs k => without key k xs) xs

variable {key}

theorem cons_of_eq {k : κ} {x : α} (same : key x = k) (xs : List α) :
    first key k (x :: xs) = some x ∧ without key k (x :: xs) = xs := by
  rw [first, without, List.find?_cons, List.eraseP_cons, same, decide_eq_true rfl]
  exact ⟨rfl, rfl⟩

theorem cons_of_ne {k : κ} {x : α} (other : key x ≠ k) (xs : List α) :
    first key k (x :: xs) = first key k xs ∧ without key k (x :: xs) = x :: without key k xs := by
  rw [first, without, List.find?_cons, List.eraseP_cons, decide_eq_false other]
  exact ⟨rfl, rfl⟩

theorem first_isSome {k : κ} {xs : List α} : (first key k xs).isSome = true ↔ k ∈ xs.map key := by
  simp [first, List.find?_isSome]

theorem first_perm {k : κ} {xs : List α} {x : α} (taken : first key k xs = some x) :
    (x :: without key k xs).Perm xs ∧ key x = k := by
  induction xs with
  | nil => cases taken
  | cons y xs ih =>
      by_cases same : key y = k
      · rw [(cons_of_eq same xs).1] at taken
        cases taken
        rw [(cons_of_eq same xs).2]
        exact ⟨.refl _, same⟩
      · rw [(cons_of_ne same xs).1] at taken
        obtain ⟨perm, named⟩ := ih taken
        rw [(cons_of_ne same xs).2]
        exact ⟨(List.Perm.swap y x _).trans (perm.cons y), named⟩

theorem map_without {k : κ} {xs : List α} : (without key k xs).map key = (xs.map key).erase k := by
  induction xs with
  | nil => rfl
  | cons y xs ih =>
      rw [List.map_cons]
      by_cases same : key y = k
      · rw [(cons_of_eq same xs).2, same, List.erase_cons_head]
      · rw [(cons_of_ne same xs).2, List.map_cons, ih, List.erase_cons_tail (by simpa using same)]

theorem picked_perm {ks : List κ} {xs : List α} (keys : ks.Perm (xs.map key)) :
    (picked key ks xs).Perm xs ∧ unpicked key ks xs = [] := by
  induction ks generalizing xs with
  | nil =>
      have none_left : xs = [] := List.map_eq_nil_iff.mp keys.symm.eq_nil
      subst none_left
      exact ⟨.refl _, rfl⟩
  | cons k ks ih =>
      have listed : k ∈ xs.map key := keys.subset List.mem_cons_self
      obtain ⟨x, taken⟩ := Option.isSome_iff_exists.mp (first_isSome.mpr listed)
      have others : ks.Perm ((without key k xs).map key) := by
        rw [map_without]
        exact (keys.trans (List.perm_cons_erase listed)).cons_inv
      obtain ⟨perm, none_left⟩ := ih others
      rw [picked, taken]
      exact ⟨(perm.cons x).trans (first_perm taken).1, none_left⟩

/-- Asked for the keys from the last one back, the items are taken from the last one back exactly if
no key occurs twice; this can be seen at anything that tells the items apart. -/
theorem picked_reverse_iff {β : Type*} {f : α → β} {xs : List α} (distinct : (xs.map f).Nodup) :
    (picked key (xs.map key).reverse xs).map f = (xs.map f).reverse ↔ (xs.map key).Nodup := by
  induction xs using List.reverseRecOn with
  | nil => exact iff_of_true rfl List.nodup_nil
  | append_singleton xs x ih =>
      simp only [List.map_append, List.map_singleton, List.reverse_append, List.reverse_singleton,
        List.singleton_append] at distinct ⊢
      obtain ⟨front, -, apart⟩ := List.nodup_append.mp distinct
      rw [picked, List.map_append]
      by_cases again : key x ∈ xs.map key
      · obtain ⟨y, taken⟩ := Option.isSome_iff_exists.mp (first_isSome.mpr again)
        have member : y ∈ xs := List.mem_of_find?_eq_some taken
        have found : first key (key x) (xs ++ [x]) = some y := by
          rw [first, List.find?_append, ← first, taken]
          rfl
        refine iff_of_false (fun same => ?_) fun nodup => ?_
        · rw [found] at same
          exact apart (f y) (List.mem_map_of_mem member) (f x) (.head _) (List.cons.inj same).1
        · exact (List.nodup_append.mp nodup).2.2 _ again _ (.head _) rfl
      · have absent : ∀ y ∈ xs, ¬ decide (key y = key x) = true := by
          intro y member same
          exact again (List.mem_map.mpr ⟨y, member, of_decide_eq_true same⟩)
        have found : first key (key x) (xs ++ [x]) = some x := by
          rw [first, List.find?_append, List.find?_eq_none.mpr absent]
          simp
        have others : without key (key x) (xs ++ [x]) = xs := by
          rw [without, List.eraseP_append_right _ absent]
          simp
        rw [found, others, Option.toList_some, List.map_singleton, List.singleton_append, List.cons_inj_right,
          ih front]
        refine ⟨fun nodup => ?_, fun nodup => (List.nodup_append.mp nodup).1⟩
        refine List.nodup_append.mpr ⟨nodup, List.nodup_singleton _, ?_⟩
        rintro k member _ last rfl
        rw [List.mem_singleton] at last
        exact again (last ▸ member)

end Picks
