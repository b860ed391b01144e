import KaiOs.State.MerkleBinding
import KaiOs.State.Snapshot

/-! What the id of a snapshot says about it, where its root has been verified. -/
namespace KaiOs
open Fields

namespace Snapshot

def idText (snap : Snapshot) : String :=
  toString snap.height.toNat ++ "|" ++ snap.tipBlockHash ++ "|" ++ snap.stateRoot

def snapshotId (shaHex : String → String) (snap : Snapshot) : String := shaHex snap.idText

variable {shaHex : String → String} {a b : Snapshot}

theorem verified_root {height : UInt64} {root : String} (verified : a.verifyAgainst shaHex height root = .ok ()) :
    a.stateRoot = a.toState.stateRoot shaHex := by
  obtain ⟨-, claimed, computed⟩ := (verifyAgainst_ok_iff a height root).mp verified
  rw [claimed, computed]

/-- A tip may contain separators: the height is read from the front and the root from the back. -/
theorem idText_inj (rootA : Free '|' a.stateRoot) (rootB : Free '|' b.stateRoot) (same : a.idText = b.idText) :
    a.height = b.height ∧ a.tipBlockHash = b.tipBlockHash ∧ a.stateRoot = b.stateRoot := by
  have bar : "|".toList = ['|'] := rfl
  obtain ⟨front, root⟩ := last_field bar rootA rootB same
  obtain ⟨height, tip⟩ := first_field bar (free_decimal rfl _) (free_decimal rfl _) front
  exact ⟨UInt64.toNat_inj.mp (decimal_inj height), tip, root⟩

/-- Verified snapshots have one id exactly if they agree in height, tip and state, up to states that no root tells
apart. -/
theorem snapshotId_tells (blank : shaHex "" = emptyRoot) (hex : ∀ t, Free '|' (shaHex t))
    {heightA heightB : UInt64} {rootA rootB : String}
    (verifiedA : a.verifyAgainst shaHex heightA rootA = .ok ())
    (verifiedB : b.verifyAgainst shaHex heightB rootB = .ok ())
    (distinct : Set.InjOn shaHex (hashedTexts shaHex a.toState.entries ∪ hashedTexts shaHex b.toState.entries ∪ {""} ∪
      {a.idText, b.idText})) :
    a.snapshotId shaHex = b.snapshotId shaHex ↔ a.height = b.height ∧ a.tipBlockHash = b.tipBlockHash ∧
      Confusable shaHex a.toState.entries b.toState.entries := by
  have roots : a.stateRoot = b.stateRoot ↔ Confusable shaHex a.toState.entries b.toState.entries := by
    rw [verified_root verifiedA, verified_root verifiedB]
    exact merkleRoot_eq_iff blank hex (distinct.mono Set.subset_union_left)
  have free {snap : Snapshot} {height : UInt64} {root : String}
      (verified : snap.verifyAgainst shaHex height root = .ok ()) : Free '|' snap.stateRoot := by
    rw [verified_root verified]
    exact merkleRoot_free shaHex hex _
  constructor
  · intro same
    have texts := distinct (.inr (.inl rfl)) (.inr (.inr rfl)) same
    obtain ⟨height, tip, root⟩ := idText_inj (free verifiedA) (free verifiedB) texts
    exact ⟨height, tip, roots.mp root⟩
  · rintro ⟨height, tip, alike⟩
    rw [snapshotId, snapshotId, idText, idText, height, tip, roots.mpr alike]

/-- Two snapshots that differ in one value. -/
def withValue (value : String) : Snapshot := fromState Sha256.hex 1 "tip" (StateStore.new.apply (.set "k" value))

theorem snapshotId_tells_values :
    (withValue "v").snapshotId Sha256.hex = (withValue "w").snapshotId Sha256.hex ↔
      (withValue "v").height = (withValue "w").height ∧
        (withValue "v").tipBlockHash = (withValue "w").tipBlockHash ∧
        Confusable Sha256.hex (withValue "v").toState.entries (withValue "w").toState.entries := by
  have entries (value : String) : (withValue value).toState.entries = single "k" value := by
    rw [withValue, toState_fromState]
    rfl
  refine snapshotId_tells (by decide +kernel) (Sha256.free_hex (by decide)) (fromState_verifies ..)
    (fromState_verifies ..) ?_
  have distinct : ([(withValue "v").idText, (withValue "w").idText, "", leafText ("k", "w"),
      leafText ("k", "v")].map Sha256.hex).Nodup := by
    decide +kernel
  rw [entries, entries, hashedTexts_single, hashedTexts_single]
  have listed (t v w i j : String) (member : t ∈ ({v} ∪ {w} ∪ {""} ∪ {i, j} : Set String)) :
      t ∈ [i, j, "", w, v] := by
    simpa using member
  exact Sha256.hex_injOn distinct fun t member => listed t _ _ _ _ member

end Snapshot
end KaiOs
