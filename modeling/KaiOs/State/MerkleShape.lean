import KaiOs.Lib.Halving
import KaiOs.State.MerkleProof

/-! `state/src/merkle.rs`: the shape of the levels. They halve from the leaves to the root, so their number
is the rounded-up logarithm of the number of entries, and one more. -/
namespace KaiOs
open Halving HashTree

section
variable (shaHex : String → String)

/-- The loop of `levels` on the vector it grows: every pass looks at the last level. It goes on behind so
many passes: `none`. -/
def growLevels : ℕ → List (List String) → Option (List (List String))
  | 0, _ => none
  | passes + 1, levels =>
      match levels.getLast? with
      | none => some levels
      | some prev =>
          if prev.length ≤ 1 then some levels else growLevels passes (levels ++ [nextLevel shaHex prev])

theorem nextLevel_halves : Halves (nextLevel shaHex) := by
  intro level
  rw [nextLevel_eq, joinRound_length]

theorem levelLoop_eq_rounds (level : List String) : levelLoop shaHex level = rounds (nextLevel shaHex) level := by
  induction level using levelLoop.induct shaHex with
  | case1 level few => rw [levelLoop, if_pos few, rounds_of_few few]
  | case2 level more ih =>
      rw [levelLoop, if_neg more, ih, rounds_of_more (nextLevel_halves shaHex) (Nat.lt_of_not_le more)]

theorem growLevels_eq (passes : ℕ) (below : List (List String)) (level : List String) :
    growLevels shaHex passes (below ++ [level]) =
      if Nat.clog 2 level.length < passes then some (below ++ rounds (nextLevel shaHex) level) else none := by
  induction passes generalizing below level with
  | zero => rw [growLevels, if_neg (Nat.not_lt_zero _)]
  | succ passes ih =>
      rw [growLevels, List.getLast?_concat]
      dsimp only
      by_cases few : level.length ≤ 1
      · rw [if_pos few, rounds_of_few few, Nat.clog_of_right_le_one few, if_pos (Nat.succ_pos passes)]
      · have more : 1 < level.length := Nat.lt_of_not_le few
        rw [if_neg few, ih, nextLevel_halves, clog_of_more more, rounds_of_more (nextLevel_halves shaHex) more,
          List.append_assoc, List.singleton_append]
        simp only [Nat.add_lt_add_iff_right]

theorem levels_eq_rounds (entries : BTreeMap String String) :
    levels shaHex entries = rounds (nextLevel shaHex) (leaves shaHex entries) := by
  unfold levels
  split
  · next none =>
      have few : (leaves shaHex entries).length ≤ 1 := by
        rw [List.isEmpty_iff.mp none]
        exact Nat.zero_le 1
      exact (rounds_of_few few).symm
  · exact levelLoop_eq_rounds shaHex (leaves shaHex entries)

theorem leaves_length (entries : BTreeMap String String) : (leaves shaHex entries).length = entries.size := by
  rw [leaves, List.length_map, Std.ExtTreeMap.length_toList]

theorem siblingsFrom_length {i : ℕ} {levels : List (List String)} {path : List (String × Bool)}
    (collected : siblingsFrom i levels = some path) : path.length = levels.length := by
  induction levels generalizing i path with
  | nil =>
      cases collected
      rfl
  | cons level above ih =>
      obtain ⟨sibling, -, rest⟩ := Option.bind_eq_some_iff.mp collected
      obtain ⟨siblings, later, rfl⟩ := Option.map_eq_some_iff.mp rest
      rw [List.length_cons, List.length_cons, ih later]

theorem prove_length {entries : BTreeMap String String} {key : String} {proof : MerkleProof}
    (proved : prove shaHex entries key = some (some proof)) :
    proof.siblings.length = Nat.clog 2 entries.size := by
  unfold prove at proved
  split at proved
  · cases proved
  · next i found =>
      obtain ⟨path, collected, same⟩ := Option.map_eq_some_iff.mp proved
      cases same
      rw [siblingsFrom_length collected, List.length_take, levels_eq_rounds, length_rounds, leaves_length]
      omega

/-- The levels of a map with entries, and what hangs on their number. -/
structure LevelShape (entries : BTreeMap String String) : Prop where
  ends (passes : ℕ) : growLevels shaHex passes [leaves shaHex entries] =
    if Nat.clog 2 entries.size < passes then some (levels shaHex entries) else none
  first : (levels shaHex entries).head?.map List.length = some entries.size
  halved : (levels shaHex entries).IsChain fun lower upper => upper.length = (lower.length + 1) / 2
  single (i : ℕ) (level : List String) : (levels shaHex entries)[i]? = some level →
    (level.length = 1 ↔ i + 1 = (levels shaHex entries).length)
  count : (levels shaHex entries).length = Nat.clog 2 entries.size + 1
  root : ∃ root, (levels shaHex entries).getLast? = some [root] ∧ merkleRoot shaHex entries = root
  proofs (key : String) : ∃ answer, prove shaHex entries key = some answer ∧ (answer.isSome ↔ key ∈ entries) ∧
    ∀ proof ∈ answer, proof.siblings.length = Nat.clog 2 entries.size

theorem levelShape_of_ne_empty {entries : BTreeMap String String} (full : entries ≠ ∅) :
    LevelShape shaHex entries := by
  have size := leaves_length shaHex entries
  have halves := nextLevel_halves shaHex
  have filled : leaves shaHex entries ≠ [] := by
    intro none
    rw [none, List.length_nil] at size
    exact full (Std.ExtTreeMap.eq_empty_iff_size_eq_zero.mpr size.symm)
  have nonempty : ¬entries.isEmpty = true := fun none => full (Std.ExtTreeMap.isEmpty_iff.mp none)
  obtain ⟨root, last⟩ := getLast?_rounds halves filled
  rw [← levels_eq_rounds] at last
  refine ⟨fun passes => ?_, ?_, ?_, fun i level here => ?_, ?_, ⟨root, last, ?_⟩, fun key => ?_⟩
  · have grown := growLevels_eq shaHex passes [] (leaves shaHex entries)
    rwa [List.nil_append, List.nil_append, size, ← levels_eq_rounds] at grown
  · rw [levels_eq_rounds, rounds, List.iterate, List.head?_cons, Option.map_some, size]
  · rw [levels_eq_rounds]
    exact rounds_halved halves _
  · rw [levels_eq_rounds] at here ⊢
    exact length_eq_one_iff halves filled here
  · rw [levels_eq_rounds, length_rounds, size]
  · rw [merkleRoot, if_neg nonempty, last]
  · obtain ⟨answer, proved, listed, -⟩ := prove_complete shaHex entries key
    refine ⟨answer, proved, listed, ?_⟩
    rintro proof rfl
    exact prove_length shaHex proved

theorem merkleRoot_eq_emptyRoot_iff {entries : BTreeMap String String} (blank : shaHex "" = emptyRoot)
    (inj : Set.InjOn shaHex (hashedTexts shaHex entries ∪ {""})) :
    merkleRoot shaHex entries = emptyRoot ↔ entries = ∅ := by
  constructor
  · intro same
    cases found : entryTree entries with
    | none => exact (merkleRoot_empty shaHex found).1
    | some top =>
        rw [merkleRoot_eq_digest shaHex found] at same
        exact absurd same (treeDigest_ne_emptyRoot blank found inj)
  · rintro rfl
    rfl

/-- Every map with entries has levels of this shape; only the empty one has the empty root. -/
theorem levels_shape (entries : BTreeMap String String) :
    (entries ≠ ∅ → LevelShape shaHex entries) ∧
      (shaHex "" = emptyRoot → Set.InjOn shaHex (hashedTexts shaHex entries ∪ {""}) →
        (merkleRoot shaHex entries = emptyRoot ↔ entries = ∅)) :=
  ⟨levelShape_of_ne_empty shaHex, merkleRoot_eq_emptyRoot_iff shaHex⟩

end

def threeEntries : BTreeMap String String := ((single "a" "1").insert "b" "2").insert "c" "3"

/-- Three leaves, two nodes and the root. -/
theorem levels_shape_three : (levels Sha256.hex threeEntries).length = 3 ∧
    (merkleRoot Sha256.hex (single "k" "v") = emptyRoot ↔ single "k" "v" = ∅) := by
  constructor
  · have full : threeEntries ≠ ∅ := fun none => by
      have size := congrArg Std.ExtTreeMap.size none
      exact absurd size (by decide)
    exact ((levels_shape Sha256.hex threeEntries).1 full).count.trans (by decide)
  · refine (levels_shape Sha256.hex (single "k" "v")).2 (by decide +kernel) ?_
    have distinct : (["", "k|v"].map Sha256.hex).Nodup := by decide +kernel
    rw [hashedTexts_single]
    refine Sha256.hex_injOn distinct fun t member => ?_
    simpa [leafText, or_comm] using member

end KaiOs
