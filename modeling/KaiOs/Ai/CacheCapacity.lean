import KaiOs.Ai.VerifiedCache

/-! The bound of the cache and the hashes of what it stores, behind any sequence of puts. -/
namespace KaiOs.Ai.VerifiedCache
open Utf8

theorem storeKey_length {capacity : ℕ} (room : 1 ≤ capacity) {keys : List ModelKey}
    (within : keys.length ≤ capacity) (key : ModelKey) : (storeKey capacity keys key).length ≤ capacity := by
  have rest : (if capacity ≤ keys.length then keys.tail else keys).length + 1 ≤ capacity := by
    split_ifs with full
    · rw [List.length_tail]
      omega
    · omega
  unfold storeKey
  extract_lets others
  split
  · exact (Nat.le_succ _).trans rest
  · rwa [List.length_append, List.length_singleton]

theorem mem_storeKey (capacity : ℕ) (keys : List ModelKey) (key : ModelKey) :
    key ∈ storeKey capacity keys key := by
  unfold storeKey
  extract_lets others
  split
  · next known => exact known
  · exact List.mem_append_right _ (List.mem_singleton_self key)

section
variable (shaHex : Bytes → String)

/-- Every stored artefact has the hash its manifest names. -/
def Matched (c : VerifiedCache) : Prop := ∀ (key : ModelKey) e, c.entries[key]? = some e → shaHex e.2 = e.1.sha256

/-- The two structures agree, keep to the capacity, and every stored key can be loaded. -/
structure Represented (c : VerifiedCache) : Prop where
  within : c.len ≤ c.maxEntries
  distinct : c.order.Nodup
  keys : ∀ key, key ∈ c.entries ↔ key ∈ c.order
  hashes : Matched shaHex c
  loads : ∀ (key : ModelKey) e, c.entries[key]? = some e → c.get shaHex key.1 key.2 = .ok ⟨e.1, e.2⟩

variable {shaHex} {c : VerifiedCache}

theorem matched_makeRoom (matched : Matched shaHex c) : Matched shaHex c.makeRoom := by
  unfold makeRoom
  split
  · split
    · intro key e found
      rw [Std.ExtTreeMap.getElem?_erase] at found
      split_ifs at found
      exact matched key e found
    · exact matched
  · exact matched

theorem matched_put (matched : Matched shaHex c) (p : ModelManifest × Bytes) :
    Matched shaHex (c.put shaHex p.1 p.2).2 := by
  cases ok : accepted shaHex p with
  | false =>
      rw [put_of_rejected ok]
      exact matched
  | true =>
      rw [put_of_accepted ok]
      intro key e found
      rw [store, Std.ExtTreeMap.getElem?_insert] at found
      split_ifs at found with same
      · cases found
        exact of_decide_eq_true ok
      · exact matched_makeRoom matched key e found

theorem get_of_matched (matched : Matched shaHex c) {key : ModelKey} {e : ModelManifest × Bytes}
    (found : c.entries[key]? = some e) : c.get shaHex key.1 key.2 = .ok ⟨e.1, e.2⟩ := by
  unfold get
  simp only [found, matched key e found, ne_eq, not_true, if_false]

theorem matched_after (maxEntries : ℕ) (puts : List (ModelManifest × Bytes)) :
    Matched shaHex (after shaHex maxEntries puts) := by
  induction puts using List.reverseRecOn with
  | nil =>
      intro key e found
      rw [after, List.foldl_nil, new, Std.ExtTreeMap.getElem?_empty] at found
      cases found
  | append_singleton puts p ih =>
      rw [after_concat]
      exact matched_put ih p

theorem order_within {capacity : ℕ} (room : 1 ≤ capacity) (puts : List (ModelManifest × Bytes)) :
    (after shaHex capacity puts).order.length ≤ capacity := by
  rw [order_after]
  induction puts.filter (accepted shaHex) using List.reverseRecOn with
  | nil => exact Nat.zero_le _
  | append_singleton puts p ih =>
      rw [List.foldl_concat]
      exact storeKey_length room ih (keyOf p)

theorem order_eq_nil_iff (maxEntries : ℕ) (puts : List (ModelManifest × Bytes)) :
    (after shaHex maxEntries puts).order = [] ↔ ∀ p ∈ puts, accepted shaHex p = false := by
  rw [order_after]
  constructor
  · intro empty p member
    by_contra ok
    have kept : p ∈ puts.filter (accepted shaHex) :=
      List.mem_filter.mpr ⟨member, Bool.not_eq_false _ ▸ ok⟩
    obtain ⟨front, last, split⟩ := List.eq_nil_or_concat (puts.filter (accepted shaHex)) |>.resolve_left
      (List.ne_nil_of_mem kept)
    rw [split, List.concat_eq_append, List.foldl_concat] at empty
    exact List.ne_nil_of_mem (mem_storeKey _ _ _) empty
  · intro rejected
    have none : puts.filter (accepted shaHex) = [] := by
      rw [List.filter_eq_nil_iff]
      intro p member
      rw [rejected p member]
      exact Bool.false_ne_true
    rw [none, List.foldl_nil]

/-- A cache is in order behind every sequence of puts, unless its capacity is zero and a put is accepted. -/
theorem represented_iff (maxEntries : ℕ) (puts : List (ModelManifest × Bytes)) :
    Represented shaHex (after shaHex maxEntries puts) ↔
      1 ≤ maxEntries ∨ ∀ p ∈ puts, accepted shaHex p = false := by
  obtain ⟨kept, same⟩ : (after shaHex maxEntries puts).Kept ∧
    (after shaHex maxEntries puts).maxEntries = maxEntries := kept_after maxEntries puts
  have matched : Matched shaHex (after shaHex maxEntries puts) := matched_after maxEntries puts
  rw [← order_eq_nil_iff maxEntries puts]
  constructor
  · intro represented
    have within := represented.within
    rw [len, kept.size, same] at within
    rw [← List.length_eq_zero_iff]
    omega
  · intro bounded
    refine ⟨?_, kept.distinct, kept.keys, matched, fun key e found => get_of_matched matched found⟩
    rw [len, kept.size, same]
    obtain room | empty := bounded
    · exact order_within room puts
    · rw [empty]
      exact Nat.zero_le _

end

/-- A cache for no artefacts takes one. -/
theorem capacity_zero_stores :
    (new 0).maxEntries = 0 ∧ (after sha256Hex 0 [artefact 1 [101]]).len = 1 ∧
      ¬ Represented sha256Hex (after sha256Hex 0 [artefact 1 [101]]) := by
  have size : (after sha256Hex 0 [artefact 1 [101]]).len = 1 := by
    rw [len, (kept_after 0 _).1.size, order_after]
    simp only [List.filter_cons, artefact_accepted, if_true, List.filter_nil]
    decide
  refine ⟨rfl, size, fun represented => ?_⟩
  have within := represented.within
  rw [size, (kept_after 0 _).2] at within
  exact absurd within (by decide)

end KaiOs.Ai.VerifiedCache
