import KaiOs.Lib.Sha256
import KaiOs.State.Merkle

/-! What a Merkle root says about the map. The texts hashed for leaves and nodes have no
tags, and keys may hold the separator: the root binds the map up to trees that hash
the same texts. -/
namespace KaiOs
open HashTree Fields

section
variable (shaHex : String → String)

/-- The maps hash the same texts at the corresponding places of their trees. -/
inductive Confusable (a b : BTreeMap String String) : Prop where
  | empty : entryTree a = none → entryTree b = none → Confusable a b
  | trees {s t : JoinTree (String × String)} : entryTree a = some s → entryTree b = some t →
      Alike shaHex leafText nodeText s t → Confusable a b

end

variable {shaHex : String → String}

theorem bar_mem_text (shaHex : String → String) (t : JoinTree (String × String)) :
    '|' ∈ (t.text shaHex leafText nodeText).toList := by
  cases t <;> simp [JoinTree.text, leafText, nodeText]

section Binding
variable (blank : shaHex "" = emptyRoot)
include blank

theorem treeDigest_ne_emptyRoot {a : BTreeMap String String} {t : JoinTree (String × String)}
    (found : entryTree a = some t) (inj : Set.InjOn shaHex (hashedTexts shaHex a ∪ {""})) :
    treeDigest shaHex t ≠ emptyRoot := by
  intro same
  rw [← blank] at same
  have text := inj (.inl ⟨t, found, t.text_mem_texts ..⟩) (.inr rfl) same
  have bar := bar_mem_text shaHex t
  rw [text] at bar
  exact List.not_mem_nil bar

variable (hex : ∀ t, Free '|' (shaHex t))
include hex

/-- Roots agree exactly on confusable maps. -/
theorem merkleRoot_eq_iff {a b : BTreeMap String String}
    (inj : Set.InjOn shaHex (hashedTexts shaHex a ∪ hashedTexts shaHex b ∪ {""})) :
    merkleRoot shaHex a = merkleRoot shaHex b ↔ Confusable shaHex a b := by
  have injA : Set.InjOn shaHex (hashedTexts shaHex a ∪ {""}) :=
    inj.mono (Set.union_subset_union_left _ Set.subset_union_left)
  have injB : Set.InjOn shaHex (hashedTexts shaHex b ∪ {""}) :=
    inj.mono (Set.union_subset_union_left _ Set.subset_union_right)
  cases foundA : entryTree a with
  | none =>
      cases foundB : entryTree b with
      | none =>
          rw [(merkleRoot_empty shaHex foundA).2, (merkleRoot_empty shaHex foundB).2]
          exact iff_of_true rfl (.empty foundA foundB)
      | some t =>
          rw [(merkleRoot_empty shaHex foundA).2, merkleRoot_eq_digest shaHex foundB]
          refine iff_of_false (treeDigest_ne_emptyRoot blank foundB injB).symm ?_
          rintro (⟨_, other⟩ | ⟨other, _, _⟩)
          · exact nomatch other.symm.trans foundB
          · exact nomatch other.symm.trans foundA
  | some s =>
      cases foundB : entryTree b with
      | none =>
          rw [(merkleRoot_empty shaHex foundB).2, merkleRoot_eq_digest shaHex foundA]
          refine iff_of_false (treeDigest_ne_emptyRoot blank foundA injA) ?_
          rintro (⟨other, _⟩ | ⟨_, other, _⟩)
          · exact nomatch other.symm.trans foundA
          · exact nomatch other.symm.trans foundB
      | some t =>
          rw [merkleRoot_eq_digest shaHex foundA, merkleRoot_eq_digest shaHex foundB]
          have texts : Set.InjOn shaHex
              (s.texts shaHex leafText nodeText ∪ t.texts shaHex leafText nodeText) := by
            refine inj.mono (Set.union_subset ?_ ?_)
            · exact fun text member => .inl (.inl ⟨s, foundA, member⟩)
            · exact fun text member => .inl (.inr ⟨t, foundB, member⟩)
          have readable (x y x' y' : String)
              (same : nodeText (shaHex x) (shaHex y) = nodeText (shaHex x') (shaHex y')) :
              shaHex x = shaHex x' ∧ shaHex y = shaHex y' :=
            first_field (c := '|') rfl (hex x) (hex x') same
          rw [digest_eq_iff texts readable]
          constructor
          · exact .trees foundA foundB
          · rintro (⟨other, _⟩ | ⟨sameA, sameB, alike⟩)
            · exact nomatch other.symm.trans foundA
            · cases foundA.symm.trans sameA
              cases foundB.symm.trans sameB
              exact alike

/-- The root binds a map exactly up to confusable maps. -/
theorem merkleRoot_binds_iff {a b : BTreeMap String String}
    (inj : Set.InjOn shaHex (hashedTexts shaHex a ∪ hashedTexts shaHex b ∪ {""})) :
    (merkleRoot shaHex a = merkleRoot shaHex b → a = b) ↔ (Confusable shaHex a b → a = b) := by
  rw [merkleRoot_eq_iff blank hex inj]

/-- Keys without the separator that are no digests themselves are bound with their values. -/
theorem merkleRoot_inj_of_plain {a b : BTreeMap String String}
    (inj : Set.InjOn shaHex (hashedTexts shaHex a ∪ hashedTexts shaHex b ∪ {""}))
    (plain : ∀ e ∈ a.toList ++ b.toList, Free '|' e.1 ∧ ∀ t, e.1 ≠ shaHex t)
    (same : merkleRoot shaHex a = merkleRoot shaHex b) : a = b := by
  have names (e e' : String × String) (he : Free '|' e.1 ∧ ∀ t, e.1 ≠ shaHex t)
      (he' : Free '|' e'.1 ∧ ∀ t, e'.1 ≠ shaHex t) (text : leafText e = leafText e') : e = e' := by
    obtain ⟨key, value⟩ := first_field (c := '|') rfl he.1 he'.1 text
    exact Prod.ext key value
  have no_node (e : String × String) (l r : String) (he : Free '|' e.1 ∧ ∀ t, e.1 ≠ shaHex t) :
      leafText e ≠ nodeText (shaHex l) (shaHex r) := by
    intro text
    exact he.2 l (first_field (c := '|') rfl he.1 (hex l) text).1
  have nodup (m : BTreeMap String String) : m.toList.Nodup := by
    have keys := Std.ExtTreeMap.nodup_keys (t := m)
    rw [← Std.ExtTreeMap.map_fst_toList_eq_keys] at keys
    exact keys.of_map _
  rcases (merkleRoot_eq_iff blank hex inj).mp same with ⟨noneA, noneB⟩ | ⟨foundA, foundB, alike⟩
  · rw [(merkleRoot_empty shaHex noneA).1, (merkleRoot_empty shaHex noneB).1]
  · have trees := alike.eq names no_node
      (tree_all foundA fun e member => plain e (List.mem_append_left _ member))
      (tree_all foundB fun e member => plain e (List.mem_append_right _ member))
    have lists : a.toList = b.toList :=
      tree_inj (nodup a) (nodup b) (foundA.trans (trees ▸ foundB.symm))
    exact Std.ExtTreeMap.toList_inj.mp lists

end Binding

def single (key value : String) : BTreeMap String String :=
  (∅ : BTreeMap String String).insert key value

/-- A key with the separator in it and a value with the separator in it. -/
theorem merkleRoot_collides :
    merkleRoot Sha256.hex (single "a|b" "c") = merkleRoot Sha256.hex (single "a" "b|c") ∧
      single "a|b" "c" ≠ single "a" "b|c" := by
  constructor
  · decide +kernel
  · intro same
    have stored := congrArg (fun m : BTreeMap String String => m[("a" : String)]?) same
    simp [single] at stored

theorem hashedTexts_single (key value : String) :
    hashedTexts shaHex (single key value) = {leafText (key, value)} := by
  have top : entryTree (single key value) = some (.leaf (key, value)) := by
    rw [entryTree, show (single key value).toList = [(key, value)] from rfl]
    exact crown_singleton _ _
  ext t
  simp [hashedTexts, top, JoinTree.texts]

theorem merkleRoot_binds_values :
    (merkleRoot Sha256.hex (single "k" "v") = merkleRoot Sha256.hex (single "k" "w") →
      single "k" "v" = single "k" "w") ↔
    (Confusable Sha256.hex (single "k" "v") (single "k" "w") → single "k" "v" = single "k" "w") := by
  refine merkleRoot_binds_iff (by decide +kernel) (Sha256.free_hex (by decide)) ?_
  have distinct : (["", "k|w", "k|v"].map Sha256.hex).Nodup := by decide +kernel
  rw [hashedTexts_single, hashedTexts_single]
  refine Sha256.hex_injOn distinct fun t member => ?_
  simpa [leafText, or_assoc] using member

end KaiOs
