import KaiOs.Network.Transport
import KaiOs.State.CrashRuns

/-! `syncd/src/lib.rs`: what travels between the nodes, its verification, and how the
sink persists it. -/
namespace KaiOs.Syncd
open Utf8

structure SyncSnapshot where
  height : UInt64
  tipBlockHash : String
  stateRoot : String
  entries : List (String × String)
  deriving DecidableEq

structure SyncAck where
  stateRoot : String
  deriving DecidableEq

/-- `Io` carries the text of a log error, `wal` that error itself. -/
inductive SyncError where
  | wal (e : WalError)
  | tcp (e : Network.TcpError)
  | rootMismatch (declared computed : String)
  | ackMismatch (expected got : String)
  deriving DecidableEq

section
variable (E : Externals)

def snapshotFromStore (store : StateStore) (height : UInt64) (tip : String) : SyncSnapshot where
  height := height
  tipBlockHash := tip
  stateRoot := store.stateRoot E.shaHex
  entries := store.entries.toList

def verifySnapshot (snap : SyncSnapshot) : Except SyncError StateStore :=
  let rebuilt := StateStore.ofEntries snap.entries
  let computed := rebuilt.stateRoot E.shaHex
  if computed ≠ snap.stateRoot then .error (.rootMismatch snap.stateRoot computed)
  else .ok rebuilt

/-- `persist_verified`: the verified entries replace the store, then a checkpoint. -/
def persistVerified (ps : PersistentState) (disk : Disk) (snap : SyncSnapshot)
    (walIo : WriteAheadLog.AppendIo) (snapshotIo : WriteIo) :
    PersistentState × Disk × Outcome SyncError Unit :=
  match verifySnapshot E snap with
  | .error e => (ps, disk, .err e)
  | .ok store =>
      let (ps, disk, result) := PersistentState.checkpoint E { ps with store := store } disk
        snap.height snap.tipBlockHash walIo snapshotIo
      match result with
      | .ok () => (ps, disk, .ok ())
      | .err e => (ps, disk, .err (.wal e))
      | .panicked => (ps, disk, .panicked)

end

variable {E : Externals}

theorem verifySnapshot_ok {snap : SyncSnapshot} {store : StateStore} :
    verifySnapshot E snap = .ok store ↔
      store = .ofEntries snap.entries ∧ store.stateRoot E.shaHex = snap.stateRoot := by
  simp only [verifySnapshot]
  split_ifs with differ
  · refine iff_of_false (by simp) ?_
    rintro ⟨rfl, same⟩
    exact differ same
  · constructor
    · intro verified
      cases verified
      exact ⟨rfl, not_not.mp differ⟩
    · rintro ⟨rfl, _⟩
      rfl

theorem snapshotFromStore_verifies (store : StateStore) (height : UInt64) (tip : String) :
    verifySnapshot E (snapshotFromStore E store height tip) = .ok store := by
  rw [verifySnapshot_ok]
  exact ⟨(StateStore.ofEntries_toList store).symm, rfl⟩

theorem persistVerified_eq (ps : PersistentState) (disk : Disk) {snap : SyncSnapshot}
    {store : StateStore} (verified : verifySnapshot E snap = .ok store)
    (walIo : WriteAheadLog.AppendIo) (snapshotIo : WriteIo) :
    (persistVerified E ps disk snap walIo snapshotIo).1 =
        (PersistentState.checkpoint E ⟨store, ps.wal⟩ disk snap.height snap.tipBlockHash
          walIo snapshotIo).1 ∧
      (persistVerified E ps disk snap walIo snapshotIo).2.1 =
        (PersistentState.checkpoint E ⟨store, ps.wal⟩ disk snap.height snap.tipBlockHash
          walIo snapshotIo).2.1 := by
  simp only [persistVerified, verified]
  split <;> simp_all

theorem persistVerified_ok (trip : E.snapshot.RoundTrips) (ps : PersistentState) (disk : Disk)
    {snap : SyncSnapshot} {store : StateStore} (verified : verifySnapshot E snap = .ok store) :
    (persistVerified E ps disk snap .ok .ok).2.2 = .ok () := by
  simp only [persistVerified, verified, checkpoint_ok trip]

theorem eq_of_result {α β γ : Type} {r : α × β × γ} {c : γ} (h : r.2.2 = c) :
    r = (r.1, r.2.1, c) := by
  obtain ⟨a, b, c'⟩ := r
  rw [← h]

end KaiOs.Syncd
