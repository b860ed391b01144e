import KaiOs.Lib.Fields
import KaiOs.Lib.HashTree

/-! `state/src/merkle.rs`: the Merkle root over the sorted state entries. SHA-256 in
lowercase hex is the parameter `shaHex`; it is given the text whose bytes are hashed. -/
namespace KaiOs
open HashTree Fields

/-- `std::collections::BTreeMap`. Strings are ordered by their code points, which is
the order of their UTF-8 bytes. -/
abbrev BTreeMap (α β : Type) [Ord α] := Std.ExtTreeMap α β compare

theorem lookup_insert {α β : Type} [Ord α] [Std.TransOrd α] [Std.LawfulEqOrd α] [DecidableEq α]
    (m : BTreeMap α β) (k : α) (v : β) (key : α) :
    (m.insert k v)[key]? = if k = key then some v else m[key]? := by
  rw [Std.ExtTreeMap.getElem?_insert]
  simp only [Std.LawfulEqCmp.compare_eq_iff_eq]

theorem lookup_erase {α β : Type} [Ord α] [Std.TransOrd α] [Std.LawfulEqOrd α] [DecidableEq α]
    (m : BTreeMap α β) (k key : α) : (m.erase k)[key]? = if k = key then none else m[key]? := by
  rw [Std.ExtTreeMap.getElem?_erase]
  simp only [Std.LawfulEqCmp.compare_eq_iff_eq]

/-- `EMPTY_ROOT`: SHA-256 of the empty input. -/
def emptyRoot : String := "e3b0c44298fc1c149afbf4c8996fb92427ae41e4649b934ca495991b7852b855"

section
variable (shaHex : String → String)

def leafHash (key value : String) : String := shaHex (key ++ "|" ++ value)

/-- The loop body: `chunks(2)` of a level, an odd last node paired with itself. -/
def nextLevel : List String → List String
  | [] => []
  | [last] => [shaHex (last ++ "|" ++ last)]
  | left :: right :: rest => shaHex (left ++ "|" ++ right) :: nextLevel rest

theorem nextLevel_eq (level : List String) :
    nextLevel shaHex level = joinRound (fun a b => shaHex (a ++ "|" ++ b)) level := by
  induction level using joinRound.induct with
  | case1 => rfl
  | case2 last => rfl
  | case3 left right rest ih => simp only [nextLevel, joinRound, ih]

/-- The loop of `levels`: it stops at a level of at most one node. -/
def levelLoop (prev : List String) : List (List String) :=
  if prev.length ≤ 1 then [prev] else prev :: levelLoop (nextLevel shaHex prev)
termination_by prev.length
decreasing_by rw [nextLevel_eq, joinRound_length]; omega

def leaves (entries : BTreeMap String String) : List String :=
  entries.toList.map fun e => leafHash shaHex e.1 e.2

def levels (entries : BTreeMap String String) : List (List String) :=
  if (leaves shaHex entries).isEmpty then [leaves shaHex entries]
  else levelLoop shaHex (leaves shaHex entries)

def merkleRoot (entries : BTreeMap String String) : String :=
  if entries.isEmpty then emptyRoot
  else match (levels shaHex entries).getLast? with
    | some (root :: _) => root
    | _ => emptyRoot

theorem levelLoop_getLast (level : List String) (full : level ≠ []) :
    ∃ root, (levelLoop shaHex level).getLast? = some [root] ∧
      crown (fun a b => shaHex (a ++ "|" ++ b)) level = some root := by
  induction level using levelLoop.induct shaHex with
  | case1 level few =>
      rw [levelLoop, if_pos few]
      match level, full, few with
      | [root], _, _ => exact ⟨root, rfl, crown_singleton _ _⟩
  | case2 level more ih =>
      have length : (nextLevel shaHex level).length = (level.length + 1) / 2 := by
        rw [nextLevel_eq, joinRound_length]
      obtain ⟨root, last, top⟩ := ih (by
        intro empty
        rw [empty, List.length_nil] at length
        omega)
      refine ⟨root, ?_, ?_⟩
      · rw [levelLoop, if_neg more, List.getLast?_cons, last, Option.getD_some]
      · rw [crown_of_more _ (by omega), ← nextLevel_eq, top]

/-- The text hashed for one entry. -/
def leafText (e : String × String) : String := e.1 ++ "|" ++ e.2

/-- The text hashed for an inner node. -/
def nodeText (left right : String) : String := left ++ "|" ++ right

/-- The abstract tree of a map; only the empty map has none. -/
def entryTree (entries : BTreeMap String String) : Option (JoinTree (String × String)) :=
  tree entries.toList

/-- The digest the code's root stands for. -/
abbrev treeDigest : JoinTree (String × String) → String := JoinTree.digest shaHex leafText nodeText

/-- The texts hashed while the root of a map is computed. -/
def hashedTexts (entries : BTreeMap String String) : Set String :=
  {t | ∃ top ∈ entryTree entries, t ∈ top.texts shaHex leafText nodeText}

theorem entryTree_isSome {entries : BTreeMap String String} (full : entries.isEmpty = false) :
    ∃ top, entryTree entries = some top := by
  apply Option.isSome_iff_exists.mp
  apply crown_isSome
  intro empty
  rw [List.map_eq_nil_iff, Std.ExtTreeMap.toList_eq_nil_iff] at empty
  rw [empty] at full
  cases full

/-- The code computes the digest of the abstract tree. -/
theorem merkleRoot_eq_digest {entries : BTreeMap String String} {top : JoinTree (String × String)}
    (h : entryTree entries = some top) : merkleRoot shaHex entries = treeDigest shaHex top := by
  have digest : crown (fun a b => shaHex (nodeText a b)) (leaves shaHex entries) =
      some (treeDigest shaHex top) := by
    rw [leaves, ← Option.map_some, ← h]
    exact (tree_digest shaHex leafText nodeText entries.toList).symm
  have full : leaves shaHex entries ≠ [] := by
    intro empty
    rw [empty, crown_nil] at digest
    cases digest
  have filled : entries.isEmpty = false := by
    apply Bool.not_eq_true _ |>.mp
    intro none
    apply full
    rw [leaves, Std.ExtTreeMap.isEmpty_iff.mp none]
    rfl
  obtain ⟨root, last, top'⟩ := levelLoop_getLast shaHex (leaves shaHex entries) full
  have same : root = treeDigest shaHex top := Option.some.inj (top'.symm.trans digest)
  rw [merkleRoot, if_neg (by rw [filled]; simp), levels, if_neg (by simpa using full), last, same]

theorem merkleRoot_empty {entries : BTreeMap String String} (h : entryTree entries = none) :
    entries = ∅ ∧ merkleRoot shaHex entries = emptyRoot := by
  by_cases none : entries.isEmpty = true
  · exact ⟨Std.ExtTreeMap.isEmpty_iff.mp none, by rw [merkleRoot, if_pos none]⟩
  · obtain ⟨top, found⟩ := entryTree_isSome (Bool.not_eq_true _ |>.mp none)
    rw [h] at found
    cases found

/-- A root is the constant or a digest. -/
theorem merkleRoot_free (hex : ∀ t, Free '|' (shaHex t)) (entries : BTreeMap String String) :
    Free '|' (merkleRoot shaHex entries) := by
  cases found : entryTree entries with
  | none =>
      rw [(merkleRoot_empty shaHex found).2]
      decide
  | some top =>
      rw [merkleRoot_eq_digest shaHex found]
      exact hex _

end
end KaiOs
