import KaiOs.State.Sync

/-! `state/src/snapshot.rs`: a dump of the state with its height, tip and root, checked by computing the
root again. -/
namespace KaiOs

structure Snapshot where
  height : UInt64
  tipBlockHash : String
  stateRoot : String
  entries : List (String × String)
  deriving DecidableEq

namespace Snapshot

def toState (snap : Snapshot) : StateStore := snap.entries.foldl (fun state e => state.apply (.set e.1 e.2)) .new

section
variable (shaHex : String → String)

def fromState (height : UInt64) (tipBlockHash : String) (state : StateStore) : Snapshot where
  height := height
  tipBlockHash := tipBlockHash
  stateRoot := state.stateRoot shaHex
  entries := state.entries.toList

/-- The entries are collected into a map, whose root the code computes itself where it is empty. The last
error names the computed root as the claimed one. -/
def verifyAgainst (snap : Snapshot) (trustedHeight : UInt64) (trustedStateRoot : String) : Except SyncError Unit :=
  if snap.height ≠ trustedHeight then .error (.snapshotHeightMismatch trustedHeight snap.height)
  else
    let entries : BTreeMap String String := Std.ExtTreeMap.ofList snap.entries
    let computed := if entries.isEmpty then emptyRoot else merkleRoot shaHex entries
    if computed ≠ snap.stateRoot then .error (.snapshotRootMismatch snap.stateRoot computed)
    else if computed ≠ trustedStateRoot then .error (.snapshotRootMismatch computed trustedStateRoot)
    else .ok ()

end

theorem toState_eq (snap : Snapshot) : snap.toState = .ofEntries snap.entries := by
  unfold toState StateStore.ofEntries StateStore.applyAll
  rw [List.foldl_map]

variable {shaHex : String → String}

/-- To collect the entries or to set them one by one makes no difference, and an empty map is no special case. -/
theorem computed_eq (snap : Snapshot) :
    (if (Std.ExtTreeMap.ofList snap.entries : BTreeMap String String).isEmpty then emptyRoot
      else merkleRoot shaHex (Std.ExtTreeMap.ofList snap.entries)) = snap.toState.stateRoot shaHex := by
  rw [toState_eq, StateStore.stateRoot, StateStore.ofEntries_entries]
  split
  · next empty => rw [merkleRoot, if_pos empty]
  · rfl

theorem verifyAgainst_ok_iff (snap : Snapshot) (height : UInt64) (root : String) :
    snap.verifyAgainst shaHex height root = .ok () ↔
      snap.height = height ∧ snap.stateRoot = root ∧ snap.toState.stateRoot shaHex = root := by
  unfold verifyAgainst
  simp only [computed_eq]
  by_cases level : snap.height = height
  · rw [if_neg (not_not.mpr level), and_iff_right level]
    by_cases claimed : snap.toState.stateRoot shaHex = snap.stateRoot
    · rw [if_neg (not_not.mpr claimed), claimed, and_self_iff]
      by_cases trusted : snap.stateRoot = root
      · rw [if_neg (not_not.mpr trusted)]
        exact iff_of_true rfl trusted
      · rw [if_pos trusted]
        exact iff_of_false (fun h => by cases h) trusted
    · rw [if_pos claimed]
      refine iff_of_false (fun h => by cases h) ?_
      rintro ⟨rfl, same⟩
      exact claimed same
  · rw [if_pos level]
    exact iff_of_false (fun h => by cases h) fun fits => level fits.1

@[simp] theorem toState_fromState (height : UInt64) (tip : String) (state : StateStore) :
    (fromState shaHex height tip state).toState = state := by
  rw [toState_eq]
  exact StateStore.ofEntries_toList state

theorem fromState_verifies (height : UInt64) (tip : String) (state : StateStore) :
    (fromState shaHex height tip state).verifyAgainst shaHex height (state.stateRoot shaHex) = .ok () := by
  rw [verifyAgainst_ok_iff, toState_fromState]
  exact ⟨rfl, rfl, rfl⟩

example : (⟨0, "", "", [("k", "1"), ("a", "2"), ("k", "3")]⟩ : Snapshot).toState.entries.toList =
    [("a", "2"), ("k", "3")] := by decide +kernel

end Snapshot
end KaiOs
