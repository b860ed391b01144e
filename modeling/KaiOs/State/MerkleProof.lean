import KaiOs.Lib.HashPath
import KaiOs.State.MerkleBinding

/-! `state/src/merkle.rs`: inclusion proofs. Every key of the map has a proof that is
accepted. The converse fails: the verifier knows neither the height of the tree nor the
place of the leaf, and the texts of leaves and nodes have no tags. -/
namespace KaiOs
open HashTree Fields

/-- The siblings from the leaf up, each with the flag "stands on the right". -/
structure MerkleProof where
  siblings : List (String × Bool)
  deriving DecidableEq

/-- The sibling of node `i` on a level. An index outside the level panics: `none`. -/
def siblingOf (level : List String) (i : ℕ) : Option (String × Bool) :=
  if i % 2 = 0 then
    if i + 1 < level.length then level[i + 1]?.map fun node => (node, true)
    else level[i]?.map fun node => (node, true)
  else level[i - 1]?.map fun node => (node, false)

/-- The loop of `prove`. -/
def siblingsFrom (i : ℕ) : List (List String) → Option (List (String × Bool))
  | [] => some []
  | level :: above =>
      (siblingOf level i).bind fun sibling =>
        (siblingsFrom (i / 2) above).map fun siblings => sibling :: siblings

section
variable (shaHex : String → String)

/-- The outer `none` is a panic. -/
def prove (entries : BTreeMap String String) (key : String) : Option (Option MerkleProof) :=
  match entries.keys.findIdx? (fun k => k == key) with
  | none => some none
  | some idx =>
      (siblingsFrom idx ((levels shaHex entries).take ((levels shaHex entries).length - 1))).map
        fun siblings => some ⟨siblings⟩

def verifyProof (leaf : String) (proof : MerkleProof) (root : String) : Bool :=
  proof.siblings.foldl (fun cur sibling =>
    if sibling.2 then shaHex (cur ++ "|" ++ sibling.1)
    else shaHex (sibling.1 ++ "|" ++ cur)) leaf == root

theorem verifyProof_iff (leaf root : String) (proof : MerkleProof) :
    verifyProof shaHex leaf proof root = true ↔
      climb (fun a b => shaHex (a ++ "|" ++ b)) leaf proof.siblings = root := by
  rw [verifyProof, beq_iff_eq]
  rfl

end

section Completeness
variable (shaHex : String → String)

theorem siblingOf_step {level : List String} {i : ℕ} {node : String} (here : level[i]? = some node) :
    ∃ sibling, siblingOf level i = some sibling ∧ (nextLevel shaHex level)[i / 2]? =
      some (stepUp (fun a b => shaHex (a ++ "|" ++ b)) node sibling) := by
  obtain ⟨inside, at_i⟩ := List.getElem?_eq_some_iff.mp here
  rw [nextLevel_eq, joinRound_getElem?]
  unfold siblingOf
  by_cases even : i % 2 = 0
  · have first : 2 * (i / 2) = i := by omega
    rw [if_pos even, first, here, Option.map_some]
    by_cases more : i + 1 < level.length
    · rw [if_pos more, List.getElem?_eq_getElem more]
      exact ⟨_, rfl, rfl⟩
    · rw [if_neg more, List.getElem?_eq_none (Nat.le_of_not_lt more)]
      exact ⟨_, rfl, rfl⟩
  · have second : 2 * (i / 2) + 1 = i := by omega
    have first : 2 * (i / 2) = i - 1 := by omega
    have before : i - 1 < level.length := by omega
    rw [if_neg even, second, here, first, List.getElem?_eq_getElem before]
    exact ⟨_, rfl, rfl⟩

theorem siblingsFrom_climbs {level : List String} {i : ℕ} {node : String}
    (here : level[i]? = some node) :
    ∃ path root, siblingsFrom i ((levelLoop shaHex level).take ((levelLoop shaHex level).length - 1)) =
        some path ∧
      (levelLoop shaHex level).getLast? = some [root] ∧
      climb (fun a b => shaHex (a ++ "|" ++ b)) node path = root := by
  induction level using levelLoop.induct shaHex generalizing i node with
  | case1 level few =>
      rw [levelLoop, if_pos few]
      have inside := (List.getElem?_eq_some_iff.mp here).1
      have first : i = 0 := by omega
      rw [first] at here ⊢
      obtain ⟨root, single⟩ := List.length_eq_one_iff.mp (Nat.le_antisymm few (Nat.zero_lt_of_lt inside))
      rw [single] at here ⊢
      cases here
      exact ⟨[], node, rfl, rfl, rfl⟩
  | case2 level more ih =>
      obtain ⟨sibling, found, next⟩ := siblingOf_step shaHex here
      obtain ⟨path, root, rest, last, climbs⟩ := ih next
      refine ⟨sibling :: path, root, ?_, ?_, climbs⟩
      · have levels : (levelLoop shaHex (nextLevel shaHex level)).length =
            (levelLoop shaHex (nextLevel shaHex level)).length - 1 + 1 := by
          have some_level := List.length_pos_of_mem (List.mem_of_getLast? last)
          omega
        rw [levelLoop, if_neg more, List.length_cons, Nat.add_sub_cancel, levels, List.take_succ_cons,
          siblingsFrom, found, Option.bind_some, rest, Option.map_some]
      · rw [levelLoop, if_neg more, List.getLast?_cons, last, Option.getD_some]

theorem entry_of_position {entries : BTreeMap String String} {key : String} {i : ℕ}
    (found : entries.keys.findIdx? (fun k => k == key) = some i) :
    ∃ value, entries[key]? = some value ∧ entries.toList[i]? = some (key, value) := by
  obtain ⟨inside, same, _⟩ := List.findIdx?_eq_some_iff_getElem.mp found
  have at_i := List.getElem?_eq_getElem inside
  rw [eq_of_beq same, ← Std.ExtTreeMap.map_fst_toList_eq_keys, List.getElem?_map] at at_i
  obtain ⟨⟨_, value⟩, entry, rfl⟩ := Option.map_eq_some_iff.mp at_i
  exact ⟨value, Std.ExtTreeMap.mem_toList_iff_getElem?_eq_some.mp (List.mem_of_getElem? entry), entry⟩

/-- `prove` answers, with a proof exactly for the keys of the map, and the proof is accepted. -/
theorem prove_complete (entries : BTreeMap String String) (key : String) :
    ∃ answer, prove shaHex entries key = some answer ∧ (answer.isSome ↔ key ∈ entries) ∧
      ∀ proof ∈ answer, ∃ value, entries[key]? = some value ∧
        verifyProof shaHex (leafHash shaHex key value) proof (merkleRoot shaHex entries) = true := by
  unfold prove
  cases found : entries.keys.findIdx? (fun k => k == key) with
  | none =>
      refine ⟨none, rfl, ?_, ?_⟩
      · have absent : ∀ other ∈ entries, ¬ other = key := by simpa using found
        exact iff_of_false Bool.false_ne_true fun member => absent key member rfl
      · intro proof absurd
        cases absurd
  | some i =>
      obtain ⟨value, stored, entry⟩ := entry_of_position found
      have leaf : (leaves shaHex entries)[i]? = some (leafHash shaHex key value) := by
        rw [leaves, List.getElem?_map, entry, Option.map_some]
      obtain ⟨path, root, collected, last, climbs⟩ := siblingsFrom_climbs shaHex leaf
      have member : key ∈ entries := by
        rw [Std.ExtTreeMap.mem_iff_isSome_getElem?, stored, Option.isSome_some]
      have filled : (leaves shaHex entries).isEmpty = false := by
        rw [List.isEmpty_eq_false_iff_exists_mem]
        exact ⟨_, List.mem_of_getElem? leaf⟩
      have loop : levels shaHex entries = levelLoop shaHex (leaves shaHex entries) := by
        rw [levels, filled, if_neg Bool.false_ne_true]
      have nonempty : ¬ entries.isEmpty = true := by
        intro none
        rw [Std.ExtTreeMap.isEmpty_iff.mp none] at member
        exact Std.ExtTreeMap.not_mem_empty member
      have top : merkleRoot shaHex entries = root := by
        rw [merkleRoot, if_neg nonempty, loop, last]
      refine ⟨some ⟨path⟩, ?_, iff_of_true rfl member, ?_⟩
      · simp only [loop, collected, Option.map_some]
      · rintro _ ⟨⟩
        exact ⟨value, stored, (verifyProof_iff ..).mpr (climbs.trans top.symm)⟩

end Completeness

section
variable (shaHex : String → String)

/-- The texts hashed while a proof for an entry is checked. -/
def checkedTexts (key value : String) (proof : MerkleProof) : Set String :=
  climbTexts shaHex nodeText (leafText (key, value)) proof.siblings

/-- From some place of the map's tree on, the proof is the path of the tree. The place is a
leaf whose text is the last one hashed below it, or an inner node, with nothing below it,
whose text is the entry's. -/
def LeadsInto (entries : BTreeMap String String) (key value : String) (proof : MerkleProof) : Prop :=
  ∃ top ∈ entryTree entries, Leads shaHex leafText nodeText (leafText (key, value)) top proof.siblings

/-- The proof leads into the tree without the entry being there: the entry's text is another
entry's text cut at another bar, or the text of an inner node, or an entry of the map spells
the text of a step of the proof. -/
structure Forged (entries : BTreeMap String String) (key value : String) (proof : MerkleProof) :
    Prop where
  leads : LeadsInto shaHex entries key value proof
  absent : entries[key]? ≠ some value

theorem verifyProof_climbText (key value root : String) (proof : MerkleProof) :
    verifyProof shaHex (leafHash shaHex key value) proof root = true ↔
      shaHex (climbText shaHex nodeText (leafText (key, value)) proof.siblings) = root := by
  rw [verifyProof_iff]
  exact iff_of_eq (congrArg (· = root) (climb_hash shaHex nodeText (leafText (key, value)) proof.siblings))

theorem bar_mem_climbText (key value : String) (path : List (String × Bool)) :
    '|' ∈ (climbText shaHex nodeText (leafText (key, value)) path).toList := by
  rcases List.eq_nil_or_concat' path with rfl | ⟨below, sibling, rfl⟩
  · simp [climbText, leafText]
  · rw [climbText_concat, stepUp]
    split_ifs
    · simp [nodeText]
    · simp [nodeText]

end

section Soundness
variable {shaHex : String → String} (blank : shaHex "" = emptyRoot)
  (hex : ∀ t, Free '|' (shaHex t))
include hex

theorem nodeText_left (x y z s : String)
    (same : nodeText (shaHex x) s = nodeText (shaHex y) (shaHex z)) : shaHex x = shaHex y ∧ s = shaHex z :=
  first_field (c := '|') rfl (hex x) (hex y) same

theorem nodeText_right (x y z s : String)
    (same : nodeText s (shaHex x) = nodeText (shaHex y) (shaHex z)) : s = shaHex y ∧ shaHex x = shaHex z :=
  last_field (c := '|') rfl (hex x) (hex z) same

/-- Among keys and values without the separator that are no digests, nothing is forged. The
value that is proved may be any text. -/
theorem not_forged_of_plain {entries : BTreeMap String String} {key value : String} {proof : MerkleProof}
    (plain_key : Free '|' key ∧ ∀ t, key ≠ shaHex t)
    (plain : ∀ e ∈ entries.toList, (Free '|' e.1 ∧ ∀ t, e.1 ≠ shaHex t) ∧
      Free '|' e.2 ∧ ∀ t, e.2 ≠ shaHex t) : ¬ Forged shaHex entries key value proof := by
  rintro ⟨⟨top, found, leads⟩, absent⟩
  apply absent
  have names (e : String × String) (here : e ∈ entries.toList)
      (text : leafText (key, value) = leafText e) : (key, value) = e := by
    obtain ⟨same_key, same_value⟩ := first_field (c := '|') rfl plain_key.1 (plain e here).1.1 text
    exact Prod.ext same_key same_value
  have no_step (e : String × String) (x : String) (sibling : String × Bool)
      (here : e ∈ entries.toList) : stepUp nodeText (shaHex x) sibling ≠ leafText e := by
    intro text
    unfold stepUp at text
    split_ifs at text
    · exact (plain e here).1.2 x (first_field (c := '|') rfl (hex x) (plain e here).1.1 text).1.symm
    · exact (plain e here).2.2 x (last_field (c := '|') rfl (hex x) (plain e here).2.1 text).2.symm
  have no_node (x y : String) : leafText (key, value) ≠ nodeText (shaHex x) (shaHex y) := by
    intro text
    exact plain_key.2 x (first_field (c := '|') rfl plain_key.1 (hex x) text).1
  have member := leads.mem (tree_all found fun e here => here) names no_step no_node
  exact Std.ExtTreeMap.mem_toList_iff_getElem?_eq_some.mp member

include blank

theorem verifyProof_iff_leads {entries : BTreeMap String String} {key value : String} {proof : MerkleProof}
    (inj : Set.InjOn shaHex (hashedTexts shaHex entries ∪ checkedTexts shaHex key value proof ∪ {""})) :
    verifyProof shaHex (leafHash shaHex key value) proof (merkleRoot shaHex entries) = true ↔
      LeadsInto shaHex entries key value proof := by
  rw [verifyProof_climbText]
  cases found : entryTree entries with
  | none =>
      rw [(merkleRoot_empty shaHex found).2]
      refine iff_of_false ?_ ?_
      · intro same
        rw [← blank] at same
        have text := inj (.inl (.inr (climbText_mem ..))) (.inr rfl) same
        have bar := bar_mem_climbText shaHex key value proof.siblings
        rw [text] at bar
        exact List.not_mem_nil bar
      · rintro ⟨top, other, _⟩
        exact nomatch other.symm.trans found
  | some top =>
      rw [merkleRoot_eq_digest shaHex found]
      have texts : Set.InjOn shaHex (top.texts shaHex leafText nodeText ∪
          climbTexts shaHex nodeText (leafText (key, value)) proof.siblings) := by
        refine inj.mono (Set.union_subset ?_ ?_)
        · exact fun text member => .inl (.inl ⟨top, found, member⟩)
        · exact fun text member => .inl (.inr member)
      rw [treeDigest, climb_eq_digest_iff texts (nodeText_left hex) (nodeText_right hex)]
      constructor
      · exact fun leads => ⟨top, found, leads⟩
      · rintro ⟨other, same, leads⟩
        cases found.symm.trans same
        exact leads

/-- An accepted proof is the proof of an entry, unless it is forged. -/
theorem verifyProof_sound_iff {entries : BTreeMap String String} {key value : String} {proof : MerkleProof}
    (inj : Set.InjOn shaHex (hashedTexts shaHex entries ∪ checkedTexts shaHex key value proof ∪ {""})) :
    (verifyProof shaHex (leafHash shaHex key value) proof (merkleRoot shaHex entries) = true →
      entries[key]? = some value) ↔ ¬ Forged shaHex entries key value proof := by
  rw [verifyProof_iff_leads blank hex inj]
  constructor
  · intro sound forged
    exact forged.absent (sound forged.leads)
  · intro honest leads
    by_contra absent
    exact honest ⟨leads, absent⟩

end Soundness

/-- The digests below the root are accepted as key and value, with an empty proof. -/
theorem verifyProof_inner_node (shaHex : String → String) {entries : BTreeMap String String}
    {l r : JoinTree (String × String)} (found : entryTree entries = some (.node l r)) :
    verifyProof shaHex (leafHash shaHex (treeDigest shaHex l) (treeDigest shaHex r)) ⟨[]⟩
      (merkleRoot shaHex entries) = true := by
  rw [verifyProof_climbText, merkleRoot_eq_digest shaHex found]
  rfl

/-- The key `a|b` with the value `c` is accepted as the key `a` with the value `b|c`. -/
theorem verifyProof_accepts_other :
    verifyProof Sha256.hex (leafHash Sha256.hex "a" "b|c") ⟨[]⟩
      (merkleRoot Sha256.hex (single "a|b" "c")) = true ∧
    (single "a|b" "c")[("a" : String)]? ≠ some "b|c" := by
  constructor
  · decide +kernel
  · intro stored
    simp [single] at stored

theorem climbTexts_single {shaHex : String → String} (start : String) (sibling : String × Bool) :
    climbTexts shaHex nodeText start [sibling] = {start, stepUp nodeText (shaHex start) sibling} := by
  ext text
  constructor
  · rintro ⟨below, begins, rfl⟩
    rw [← List.nil_append [sibling]] at begins
    rcases List.prefix_concat_iff.mp begins with rfl | nothing
    · exact .inr rfl
    · rw [List.prefix_nil.mp nothing]
      exact .inl rfl
  · rintro (rfl | rfl)
    · exact ⟨[], List.nil_prefix, rfl⟩
    · exact ⟨[sibling], List.prefix_rfl, rfl⟩

theorem verifyProof_sound_other_value :
    (verifyProof Sha256.hex (leafHash Sha256.hex "k" "w") ⟨[("x", true)]⟩
        (merkleRoot Sha256.hex (single "k" "v")) = true →
      (single "k" "v")[("k" : String)]? = some "w") ↔
    ¬ Forged Sha256.hex (single "k" "v") "k" "w" ⟨[("x", true)]⟩ := by
  refine verifyProof_sound_iff (by decide +kernel) (Sha256.free_hex (by decide)) ?_
  have distinct : (["", "k|v", "k|w", stepUp nodeText (Sha256.hex "k|w") ("x", true)].map Sha256.hex).Nodup := by
    decide +kernel
  rw [hashedTexts_single, checkedTexts, climbTexts_single]
  refine Sha256.hex_injOn distinct fun t member => ?_
  rcases member with (rfl | rfl | rfl) | rfl
  · exact .tail _ (.head _)
  · exact .tail _ (.tail _ (.head _))
  · exact .tail _ (.tail _ (.tail _ (.head _)))
  · exact .head _

end KaiOs
