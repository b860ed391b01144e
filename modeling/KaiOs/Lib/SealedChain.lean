import KaiOs.Lib.Fields
import KaiOs.Lib.HashChain
import KaiOs.Lib.Signature
import Mathlib.Algebra.Group.Nat.Defs

/-! Hash chains whose records carry a running number and the digest of a text made from them:
the loop that recomputes such a chain, and what the last hash of one binds. -/
namespace SealedChain
open HashChain

/-- Where a record has its number, the hash before it and its own hash, and the text that is
hashed. -/
structure Layout (α : Type*) where
  seq : α → UInt64
  prev : α → String
  hash : α → String
  text : α → String

variable {α : Type*} (F : Layout α) (digest : String → String)

/-- The record stands behind `i` others, the last of them with the hash `g`. -/
structure Layout.SealedAt (i : ℕ) (g : String) (x : α) : Prop where
  number : F.seq x = UInt64.ofNat i + 1
  link : F.prev x = g
  stamp : F.hash x = digest (F.text x)

def Layout.Sealed : ℕ → String → List α → Prop
  | _, _, [] => True
  | i, g, x :: xs => F.SealedAt digest i g x ∧ Layout.Sealed (i + 1) (F.hash x) xs

/-- The loop that recomputes a chain, from the record with index `i` on. -/
def Layout.checkFrom : ℕ → String → List α → Bool
  | _, _, [] => true
  | i, g, x :: xs =>
      if F.seq x ≠ UInt64.ofNat i + 1 ∨ F.prev x ≠ g then false
      else if F.hash x ≠ digest (F.text x) then false
      else Layout.checkFrom (i + 1) (F.hash x) xs

variable {F digest}

theorem checkFrom_iff (i : ℕ) (g : String) (xs : List α) :
    F.checkFrom digest i g xs = true ↔ F.Sealed digest i g xs := by
  induction xs generalizing i g with
  | nil => exact iff_of_true rfl trivial
  | cons x xs ih =>
      rw [Layout.checkFrom, Layout.Sealed]
      split_ifs with misplaced forged
      · refine iff_of_false id fun h => ?_
        obtain number | link := misplaced
        · exact number h.1.number
        · exact link h.1.link
      · exact iff_of_false id fun h => forged h.1.stamp
      · obtain ⟨number, link⟩ := not_or.mp misplaced
        rw [ih]
        exact (and_iff_right ⟨not_not.mp number, not_not.mp link, not_not.mp forged⟩).symm

theorem sealed_append (i : ℕ) (g : String) (xs ys : List α) : F.Sealed digest i g (xs ++ ys) ↔
    F.Sealed digest i g xs ∧ F.Sealed digest (i + xs.length) (tip F.hash g xs) ys := by
  induction xs generalizing i g with
  | nil => simp only [List.nil_append, Layout.Sealed, List.length_nil, Nat.add_zero, tip_nil, true_and]
  | cons x xs ih =>
      simp only [List.cons_append, Layout.Sealed, List.length_cons, tip, ih, and_assoc, Nat.add_assoc,
        Nat.add_comm 1]

theorem sealed_concat (i : ℕ) (g : String) (xs : List α) (x : α) : F.Sealed digest i g (xs ++ [x]) ↔
    F.Sealed digest i g xs ∧ F.SealedAt digest (i + xs.length) (tip F.hash g xs) x := by
  simp only [sealed_append, Layout.Sealed, and_true]

/-- A chain seen from outside: linked, numbered without a gap, and every hash recomputable. -/
theorem sealed_iff (i : ℕ) (g : String) (xs : List α) : F.Sealed digest i g xs ↔
    Linked F.prev F.hash g xs ∧
      ∀ j x, xs[j]? = some x → F.seq x = UInt64.ofNat (i + j) + 1 ∧ F.hash x = digest (F.text x) := by
  induction xs generalizing i g with
  | nil => exact iff_of_true trivial ⟨trivial, nofun⟩
  | cons x xs ih =>
      rw [Layout.Sealed, ih]
      constructor
      · rintro ⟨⟨number, link, stamp⟩, linked, rest⟩
        refine ⟨⟨link, linked⟩, fun j y found => ?_⟩
        cases j with
        | zero =>
            cases found
            exact ⟨number, stamp⟩
        | succ j => exact Nat.succ_add_eq_add_succ i j ▸ rest j y found
      · rintro ⟨⟨link, linked⟩, each⟩
        obtain ⟨number, stamp⟩ := each 0 x rfl
        exact ⟨⟨number, link, stamp⟩, linked, fun j y found =>
          Nat.succ_add_eq_add_succ i j ▸ each (j + 1) y found⟩

/-- The hash a record names is the start value or the digest of a text. -/
theorem Layout.SealedAt.link_mem {names : Set String} {i : ℕ} {g : String} {xs : List α} {x : α}
    (start : g ∈ names) (digests : ∀ t, digest t ∈ names) (chain : F.Sealed digest 0 g xs)
    (last : F.SealedAt digest i (tip F.hash g xs) x) : F.prev x ∈ names := by
  rw [last.link]
  cases xs using List.reverseRecOn with
  | nil => exact start
  | append_singleton xs y =>
      rw [tip_concat, ((sealed_concat 0 g xs y).mp chain).2.stamp]
      exact digests _

/-- What the record says may be told in another way without a trace in the chain: under the same
number, behind the same hash and with the same text. -/
def Layout.Alike (x y : α) : Prop :=
  F.seq y = F.seq x ∧ F.prev y = F.prev x ∧ F.hash y = F.hash x ∧ F.text y = F.text x

theorem sealed_replace {i : ℕ} {g : String} {front rest : List α} {x y : α} (alike : F.Alike x y)
    (chain : F.Sealed digest i g (front ++ x :: rest)) : F.Sealed digest i g (front ++ y :: rest) := by
  obtain ⟨number, link, hash, text⟩ := alike
  rw [sealed_append] at chain ⊢
  obtain ⟨before, ⟨number', link', stamp'⟩, after⟩ := chain
  rw [← hash] at after
  exact ⟨before, ⟨number.trans number', link.trans link', by rw [hash, stamp', text]⟩, after⟩

theorem tip_replace {g : String} {front rest : List α} {x y : α} (alike : F.Alike x y) :
    tip F.hash g (front ++ y :: rest) = tip F.hash g (front ++ x :: rest) := by
  rw [tip_append, tip_append, tip, tip, alike.2.2.1]

/-- The length and the last hash of a chain bind every record up to what another record that
looks the same can say. -/
theorem eq_of_tip {names : Set String} {g : String} {xs ys : List α} (start : g ∈ names)
    (digests : ∀ t, digest t ∈ names)
    (reads : ∀ x y, F.prev x ∈ names → F.prev y ∈ names → F.text y = F.text x → F.prev y = F.prev x)
    (unmatched : Signature.Unmatched digest {t | ∃ x ∈ xs, F.text x = t})
    (plain : ∀ x ∈ xs, ∀ y, F.Alike x y → y = x) (hx : F.Sealed digest 0 g xs)
    (hy : F.Sealed digest 0 g ys) (lengths : ys.length = xs.length)
    (same : tip F.hash g ys = tip F.hash g xs) : ys = xs := by
  induction xs using List.reverseRecOn generalizing ys with
  | nil => exact List.length_eq_zero_iff.mp lengths
  | append_singleton xs x ih =>
      cases ys using List.reverseRecOn with
      | nil => simp at lengths
      | append_singleton ys y =>
          rw [tip_concat, tip_concat] at same
          rw [List.length_append, List.length_append, List.length_singleton, List.length_singleton,
            Nat.add_right_cancel_iff] at lengths
          rw [sealed_concat] at hx hy
          obtain ⟨hx, lastx⟩ := hx
          obtain ⟨hy, lasty⟩ := hy
          have text : F.text y = F.text x := by
            refine unmatched _ ⟨x, List.mem_concat_self, rfl⟩ _ ?_
            rw [← lasty.stamp, ← lastx.stamp, same]
          have link : F.prev y = F.prev x :=
            reads x y (lastx.link_mem start digests hx) (lasty.link_mem start digests hy) text
          have number : F.seq y = F.seq x := by rw [lastx.number, lasty.number, lengths]
          have last : y = x := plain x List.mem_concat_self y ⟨number, link, same, text⟩
          have before : tip F.hash g ys = tip F.hash g xs := by rw [← lastx.link, ← lasty.link, link]
          have earlier : ys = xs :=
            ih (fun t ⟨z, member, h⟩ => unmatched t ⟨z, List.mem_append_left _ member, h⟩)
              (fun z member => plain z (List.mem_append_left _ member)) hx hy lengths before
          rw [earlier, last]

/-- A chain is the only one of its length with its last hash exactly when no record of it can be
told in another way. -/
theorem tamper_evident_iff {names : Set String} {g : String} {xs : List α} (start : g ∈ names)
    (digests : ∀ t, digest t ∈ names)
    (reads : ∀ x y, F.prev x ∈ names → F.prev y ∈ names → F.text y = F.text x → F.prev y = F.prev x)
    (unmatched : Signature.Unmatched digest {t | ∃ x ∈ xs, F.text x = t})
    (chain : F.Sealed digest 0 g xs) :
    (∀ ys, F.Sealed digest 0 g ys → ys.length = xs.length → tip F.hash g ys = tip F.hash g xs → ys = xs) ↔
      ∀ x ∈ xs, ∀ y, F.Alike x y → y = x := by
  constructor
  · intro unique x member y alike
    obtain ⟨front, rest, rfl⟩ := List.append_of_mem member
    have same := unique _ (sealed_replace alike chain) (by simp) (tip_replace alike)
    exact (List.cons.inj (List.append_cancel_left same)).1
  · intro plain ys hy lengths same
    exact eq_of_tip start digests reads unmatched plain chain hy lengths same

/-- Chains that each begin anew are one chain only if at most one of them has records. -/
theorem sealed_flatten_iff {g : String} {chains : List (List α)} (each : ∀ xs ∈ chains, F.Sealed digest 0 g xs)
    (fits : ∀ xs ∈ chains, xs.length < 2 ^ 64) :
    F.Sealed digest 0 g chains.flatten ↔ chains.countP (! ·.isEmpty) ≤ 1 := by
  rw [List.countP_eq_length_filter, ← List.flatten_filter_not_isEmpty]
  have kept : ∀ xs ∈ chains.filter (! ·.isEmpty), xs ∈ chains ∧ xs ≠ [] := by simp
  cases filled : chains.filter (! ·.isEmpty) with
  | nil => exact iff_of_true trivial (Nat.zero_le 1)
  | cons xs more =>
      rw [filled] at kept
      cases more with
      | nil =>
          rw [List.flatten_singleton]
          exact iff_of_true (each xs (kept xs (by simp)).1) le_rfl
      | cons ys more =>
          refine iff_of_false (fun chain => ?_) (by simp)
          obtain ⟨inside, full⟩ := kept xs (by simp)
          obtain ⟨inside', full'⟩ := kept ys (by simp)
          obtain ⟨y, rest, rfl⟩ := List.exists_cons_of_ne_nil full'
          rw [List.flatten_cons, sealed_append, List.flatten_cons] at chain
          have second := chain.2.1.number
          rw [(each _ inside').1.number, UInt64.add_left_inj] at second
          have lengths := congrArg UInt64.toNat second
          have bound := fits xs inside
          have filled := List.length_pos_iff.mpr full
          rw [UInt64.toNat_ofNat', UInt64.toNat_ofNat', Nat.zero_add] at lengths
          omega

section Joined
open Fields
variable {c : Char} {sep : String} {n : ℕ} {fields : α → List String}

/-- The hashed text is the number, the record's own fields and the hash before it, with the
separator between any two. -/
structure Layout.Joins (F : Layout α) (sep : String) (n : ℕ) (fields : α → List String) : Prop where
  text : ∀ x, F.text x = toString (F.seq x) ++ sep ++ (sep.intercalate (fields x) ++ sep ++ F.prev x)
  several : 2 ≤ n
  length : ∀ x, (fields x).length = n
  refill : ∀ x ys, ys.length = n →
    ∃ y, F.seq y = F.seq x ∧ F.prev y = F.prev x ∧ F.hash y = F.hash x ∧ fields y = ys
  ext : ∀ x y, F.seq y = F.seq x → F.prev y = F.prev x → F.hash y = F.hash x → fields y = fields x → y = x

variable (joins : F.Joins sep n fields) (hsep : sep.toList = [c])
include joins hsep

theorem Layout.Joins.alike_iff (x : α) : (∀ y, F.Alike x y → y = x) ↔ ∀ f ∈ fields x, Free c f := by
  rw [← cut_unique_iff hsep (joins.several.trans_eq (joins.length x).symm)]
  constructor
  · intro plain ys lengths same
    obtain ⟨y, number, link, hash, rfl⟩ := joins.refill x ys (lengths.trans (joins.length x))
    have text : F.text y = F.text x := by rw [joins.text, joins.text, number, link, same]
    rw [plain y ⟨number, link, hash, text⟩]
  · intro unique y alike
    obtain ⟨number, link, hash, text⟩ := alike
    rw [joins.text, joins.text, number, link, String.append_right_inj, String.append_left_inj,
      String.append_left_inj] at text
    exact joins.ext x y number link hash (unique _ ((joins.length y).trans (joins.length x).symm) text)

/-- A recomputable chain is the only one of its length with its last hash exactly when no field of
its records contains the separator. -/
theorem Layout.Joins.tamper_evident_iff {g : String} {xs : List α} (start : Free c g)
    (digests : ∀ t, Free c (digest t)) (unmatched : Signature.Unmatched digest {t | ∃ x ∈ xs, F.text x = t})
    (chain : F.Sealed digest 0 g xs) :
    (∀ ys, F.Sealed digest 0 g ys → ys.length = xs.length →
      ys.getLast?.map F.hash = xs.getLast?.map F.hash → ys = xs) ↔ ∀ x ∈ xs, ∀ f ∈ fields x, Free c f := by
  have reads : ∀ x y, F.prev x ∈ {s | Free c s} → F.prev y ∈ {s | Free c s} → F.text y = F.text x →
      F.prev y = F.prev x := by
    intro x y plainx plainy same
    rw [joins.text, joins.text, ← String.append_assoc, ← String.append_assoc, ← String.append_assoc,
      ← String.append_assoc] at same
    exact (last_field hsep plainy plainx same).2
  have fields_iff : (∀ x ∈ xs, ∀ y, F.Alike x y → y = x) ↔ ∀ x ∈ xs, ∀ f ∈ fields x, Free c f :=
    forall₂_congr fun x _ => joins.alike_iff hsep x
  rw [← fields_iff, ← SealedChain.tamper_evident_iff start digests reads unmatched chain]
  refine forall₃_congr fun ys _ lengths => ?_
  rw [tip_eq_iff_getLast? F.hash lengths]

end Joined
end SealedChain
