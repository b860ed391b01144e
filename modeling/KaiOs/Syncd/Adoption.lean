import KaiOs.State.Snapshot
import KaiOs.Syncd.Snapshot

/-! The snapshots of the two crates: what is verified is what is adopted. -/
namespace KaiOs.Syncd

/-- The snapshot of the state crate with the fields of one that was received. -/
def SyncSnapshot.snapshot (snap : SyncSnapshot) : Snapshot :=
  ⟨snap.height, snap.tipBlockHash, snap.stateRoot, snap.entries⟩

section
variable (E : Externals)

theorem snapshotFromStore_snapshot (store : StateStore) (height : UInt64) (tip : String) :
    (snapshotFromStore E store height tip).snapshot = .fromState E.shaHex height tip store := rfl

variable {E}

/-- The two rebuilds agree on every list of entries. -/
theorem verifySnapshot_iff (snap : SyncSnapshot) (store : StateStore) : verifySnapshot E snap = .ok store ↔
    store = snap.snapshot.toState ∧ snap.snapshot.toState.stateRoot E.shaHex = snap.stateRoot := by
  rw [verifySnapshot_ok, Snapshot.toState_eq]
  constructor
  · rintro ⟨rfl, same⟩
    exact ⟨rfl, same⟩
  · rintro ⟨rfl, same⟩
    exact ⟨rfl, same⟩

variable (E)

/-- Both checks accept a list of entries exactly for the root of the state it rebuilds, and what a state gives is
accepted and rebuilds that state. -/
theorem verified_is_adopted :
    (∀ (snap : Snapshot) height root, snap.verifyAgainst E.shaHex height root = .ok () ↔
      snap.height = height ∧ snap.stateRoot = root ∧ snap.toState.stateRoot E.shaHex = root) ∧
    (∀ (snap : SyncSnapshot) store, verifySnapshot E snap = .ok store ↔
      store = snap.snapshot.toState ∧ snap.snapshot.toState.stateRoot E.shaHex = snap.stateRoot) ∧
    ∀ (store : StateStore) height tip,
      (Snapshot.fromState E.shaHex height tip store).verifyAgainst E.shaHex height (store.stateRoot E.shaHex) =
          .ok () ∧
        (Snapshot.fromState E.shaHex height tip store).toState = store ∧
        (snapshotFromStore E store height tip).snapshot.verifyAgainst E.shaHex height (store.stateRoot E.shaHex) =
          .ok () ∧
        verifySnapshot E (snapshotFromStore E store height tip) = .ok store := by
  refine ⟨Snapshot.verifyAgainst_ok_iff, verifySnapshot_iff, fun store height tip => ?_⟩
  have verifies : (Snapshot.fromState E.shaHex height tip store).verifyAgainst E.shaHex height
      (store.stateRoot E.shaHex) = .ok () := Snapshot.fromState_verifies height tip store
  refine ⟨verifies, Snapshot.toState_fromState height tip store, ?_, snapshotFromStore_verifies store height tip⟩
  rw [snapshotFromStore_snapshot]
  exact verifies

end
end KaiOs.Syncd
