import KaiOs.Lib.MarkerLog
import KaiOs.State.Persistence
import KaiOs.State.WalReplay

/-! `PersistentState` of `state/src/wal.rs`: the store behind its log, checkpoints and
recovery. Recovery is shown to be the marker protocol over the ops of the log. -/
namespace KaiOs
open Utf8 WriteAheadLog

/-- The two files of a node. -/
structure Disk where
  wal : Option Bytes
  snapshot : Option Bytes

structure PersistentState where
  store : StateStore
  wal : WriteAheadLog

def WalOp.checkpoint? : WalOp → Option (UInt64 × String × String)
  | .apply _ => none
  | .checkpoint height tipBlockHash stateRoot => some (height, tipBlockHash, stateRoot)

def lastCheckpoint (ops : List WalOp) : Option (UInt64 × String × String) :=
  ops.reverse.findSome? WalOp.checkpoint?

/-- `rposition` of the last marker, or 0. -/
def lastCheckpointIndex (ops : List WalOp) : ℕ :=
  match ops.reverse.findIdx? fun op => op.checkpoint?.isSome with
  | some fromEnd => ops.length - 1 - fromEnd
  | none => 0

def applyOps (store : StateStore) : List WalOp → StateStore
  | [] => store
  | .apply tx :: ops => applyOps (store.apply tx) ops
  | .checkpoint _ _ _ :: ops => applyOps store ops

namespace PersistentState
variable (E : Externals)

def readOps : Option Bytes → Except WalError (List WalOp)
  | none => .ok []
  | some file => match replay E.toWalExternals (some file) with
    | .ok (ops, _, _) => .ok ops
    | .error e => .error e

/-- The store recovery starts from and the index of the first op applied to it. -/
def recoveryBase (ops : List WalOp) (snapshot : Option Bytes) : Outcome WalError (StateStore × ℕ) :=
  match lastCheckpoint ops with
  | none => .ok (.new, 0)
  | some (_, _, markerRoot) => match loadSnapshotStore E snapshot with
    | .panicked => .panicked
    | .err _ => .ok (.new, 0)
    | .ok snapshotStore =>
        if snapshotStore.stateRoot E.shaHex = markerRoot then
          .ok (snapshotStore, lastCheckpointIndex ops + 1)
        else .ok (.new, 0)

/-- `open`, with the disk it leaves: a missing log file is created. -/
def openState (disk : Disk) : Outcome WalError (PersistentState × Disk) :=
  match readOps E disk.wal with
  | .error e => .err e
  | .ok ops => match recoveryBase E ops disk.snapshot with
    | .panicked => .panicked
    | .err e => .err e
    | .ok (base, appliedFrom) => match openLog E.toWalExternals disk.wal with
      | .error e => .err e
      | .ok (wal, file) =>
          .ok (⟨applyOps base (ops.drop appliedFrom), wal⟩, { disk with wal := some file })

/-- `apply`: the log first, then the store. -/
def apply (ps : PersistentState) (disk : Disk) (tx : Tx) (io : AppendIo) :
    PersistentState × Disk × Except WalError UInt64 :=
  let (wal, file, result) := ps.wal.append E.toWalExternals (disk.wal.getD []) tx io
  match result with
  | .error e => ({ ps with wal := wal }, { disk with wal := some file }, .error e)
  | .ok seq => (⟨ps.store.apply tx, wal⟩, { disk with wal := some file }, .ok seq)

/-- `checkpoint`: the marker first, then the snapshot. -/
def checkpoint (ps : PersistentState) (disk : Disk) (height : UInt64) (tipBlockHash : String)
    (walIo : AppendIo) (snapshotIo : WriteIo) : PersistentState × Disk × Outcome WalError Unit :=
  let root := ps.store.stateRoot E.shaHex
  let (wal, file, result) := ps.wal.appendOp E.toWalExternals (disk.wal.getD [])
    (.checkpoint height tipBlockHash root) walIo
  match result with
  | .error e => ({ ps with wal := wal }, { disk with wal := some file }, .err e)
  | .ok _ =>
      let (snapshot, saved) :=
        saveSnapshotStore E ps.store height tipBlockHash disk.snapshot snapshotIo
      let disk := ⟨some file, snapshot⟩
      match saved with
      | .ok () => ({ ps with wal := wal }, disk, .ok ())
      | .err e => ({ ps with wal := wal }, disk, .err (.io e))
      | .panicked => ({ ps with wal := wal }, disk, .panicked)

theorem checkpoint_store (ps : PersistentState) (disk : Disk) (height : UInt64) (tip : String)
    (walIo : AppendIo) (io : WriteIo) :
    (ps.checkpoint E disk height tip walIo io).1.store = ps.store := by
  simp only [checkpoint]
  cases walIo with
  | ok => cases (saveSnapshotStore E ps.store height tip disk.snapshot io).2 <;> rfl
  | writeFails n => rfl
  | syncFails => rfl

theorem openState_snapshot {disk disk' : Disk} {ps : PersistentState}
    (opened : openState E disk = .ok (ps, disk')) : disk'.snapshot = disk.snapshot := by
  simp only [openState] at opened
  repeat' split at opened
  all_goals cases opened
  rfl

structure VerifiedBoundary where
  height : UInt64
  tipBlockHash : String
  stateRoot : String

def lastVerifiedBoundary (disk : Disk) : VerifiedBoundary :=
  match snapshotMeta E disk.snapshot with
  | .ok (height, tip, root) => ⟨height, tip, root⟩
  | .error _ => ⟨0, "", StateStore.new.stateRoot E.shaHex⟩

end PersistentState

section Protocol

/-- An op of the log as an entry of the marker protocol. -/
def WalOp.entry : WalOp → MarkerLog.Entry Tx String
  | .apply tx => .tx tx
  | .checkpoint _ _ stateRoot => .marker stateRoot

theorem applyOps_eq (store : StateStore) (ops : List WalOp) :
    applyOps store ops = MarkerLog.replay StateStore.apply store (ops.map WalOp.entry) := by
  induction ops generalizing store with
  | nil => rfl
  | cons op ops ih => cases op <;> exact ih _

@[simp] theorem applyOps_append (store : StateStore) (ops more : List WalOp) :
    applyOps store (ops ++ more) = applyOps (applyOps store ops) more := by
  induction ops generalizing store with
  | nil => rfl
  | cons op ops ih => cases op <;> exact ih _

theorem last_checkpoint_cases (ops : List WalOp) :
    (∀ op ∈ ops, op.checkpoint? = none) ∨ ∃ before height tip root after,
      ops = before ++ .checkpoint height tip root :: after ∧
        ∀ op ∈ after, op.checkpoint? = none := by
  induction ops with
  | nil => exact .inl fun _ member => nomatch member
  | cons op ops ih =>
      rcases ih with none_left | ⟨before, height, tip, root, after, rfl, clear⟩
      · cases op with
        | apply tx => exact .inl (List.forall_mem_cons.mpr ⟨rfl, none_left⟩)
        | checkpoint height tip root => exact .inr ⟨[], height, tip, root, ops, rfl, none_left⟩
      · exact .inr ⟨op :: before, height, tip, root, after, rfl, clear⟩

theorem lastCheckpoint_none {ops : List WalOp} (clear : ∀ op ∈ ops, op.checkpoint? = none) :
    lastCheckpoint ops = none := by
  rw [lastCheckpoint, List.findSome?_eq_none_iff]
  intro op member
  exact clear op (List.mem_reverse.mp member)

theorem lastMarker_clear {ops : List WalOp} (clear : ∀ op ∈ ops, op.checkpoint? = none) :
    MarkerLog.lastMarker (ops.map WalOp.entry) = none := by
  induction ops with
  | nil => rfl
  | cons op ops ih =>
      obtain ⟨here, rest⟩ := List.forall_mem_cons.mp clear
      cases op with
      | apply tx => exact ih rest
      | checkpoint height tip root => cases here

theorem lastCheckpoint_some (before : List WalOp) (height : UInt64) (tip root : String)
    {after : List WalOp} (clear : ∀ op ∈ after, op.checkpoint? = none) :
    lastCheckpoint (before ++ .checkpoint height tip root :: after) = some (height, tip, root) ∧
      lastCheckpointIndex (before ++ .checkpoint height tip root :: after) = before.length := by
  have shape : (before ++ .checkpoint height tip root :: after).reverse =
      after.reverse ++ .checkpoint height tip root :: before.reverse := by simp
  have later : ∀ op ∈ after.reverse, op.checkpoint? = none :=
    fun op member => clear op (List.mem_reverse.mp member)
  have none_later : after.reverse.findIdx? (fun op => op.checkpoint?.isSome) = none := by
    rw [List.findIdx?_eq_none_iff]
    intro op member
    rw [later op member]
    rfl
  constructor
  · rw [lastCheckpoint, shape, List.findSome?_append, List.findSome?_eq_none_iff.mpr later]
    rfl
  · have here : (WalOp.checkpoint height tip root :: before.reverse).findIdx?
        (fun op => op.checkpoint?.isSome) = some 0 := rfl
    rw [lastCheckpointIndex, shape, List.findIdx?_append, none_later, here]
    simp

/-- The readable snapshot of a path. -/
def storedStore (E : Externals) (path : Option Bytes) : Option StateStore :=
  match loadSnapshotStore E path with
  | .ok store => some store
  | _ => none

variable {E : Externals}

theorem openLog_of_readOps {wal : Option Bytes} {ops : List WalOp}
    (read : PersistentState.readOps E wal = .ok ops) :
    ∃ log file, openLog E.toWalExternals wal = .ok (log, file) := by
  cases wal with
  | none => exact ⟨genesis, [], rfl⟩
  | some file =>
      rw [PersistentState.readOps] at read
      cases whole : replay E.toWalExternals (some file) with
      | error e =>
          rw [whole] at read
          cases read
      | ok out =>
          obtain ⟨ops', seq, tip⟩ := out
          exact ⟨⟨seq, tip⟩, file, openLog_iff.mpr ⟨rfl, ops', whole⟩⟩

/-- The code's choice of a base and a suffix is the protocol's recovery. -/
theorem recoveryBase_eq (ops : List WalOp) {snapshot : Option Bytes}
    (calm : loadSnapshotStore E snapshot ≠ .panicked) :
    ∃ base appliedFrom, PersistentState.recoveryBase E ops snapshot = .ok (base, appliedFrom) ∧
      applyOps base (ops.drop appliedFrom) = MarkerLog.recover StateStore.apply
        (StateStore.stateRoot E.shaHex) .new (ops.map WalOp.entry) (storedStore E snapshot) := by
  have from_genesis : applyOps .new (ops.drop 0) =
      MarkerLog.replay StateStore.apply .new (ops.map WalOp.entry) := applyOps_eq .new ops
  rcases last_checkpoint_cases ops with clear | ⟨before, height, tip, root, after, rfl, clear⟩
  · refine ⟨.new, 0, ?_, ?_⟩
    · rw [PersistentState.recoveryBase, lastCheckpoint_none clear]
    · rw [from_genesis, MarkerLog.recover_unmarked _ _ _ (lastMarker_clear clear)]
  · obtain ⟨last, index⟩ := lastCheckpoint_some before height tip root clear
    have marked : MarkerLog.lastMarker
        ((before ++ .checkpoint height tip root :: after).map WalOp.entry) =
          some (root, after.map WalOp.entry) := by
      rw [List.map_append, List.map_cons]
      exact MarkerLog.lastMarker_append _ _ _ (lastMarker_clear clear)
    cases loaded : loadSnapshotStore E snapshot with
    | panicked => exact absurd loaded calm
    | err e =>
        refine ⟨.new, 0, ?_, ?_⟩
        · simp only [PersistentState.recoveryBase, last, loaded]
        · simp only [storedStore, loaded]
          rw [from_genesis, MarkerLog.recover_none]
    | ok s =>
        by_cases hit : s.stateRoot E.shaHex = root
        · refine ⟨s, before.length + 1, ?_, ?_⟩
          · simp only [PersistentState.recoveryBase, last, loaded, if_pos hit, index]
          · have suffix : (before ++ .checkpoint height tip root :: after).drop (before.length + 1) =
                after := by
              rw [List.append_cons, List.drop_left']
              simp
            simp only [storedStore, loaded]
            rw [suffix, applyOps_eq]
            simp only [MarkerLog.recover, marked, if_pos hit]
        · refine ⟨.new, 0, ?_, ?_⟩
          · simp only [PersistentState.recoveryBase, last, loaded, if_neg hit]
          · simp only [storedStore, loaded]
            rw [from_genesis, MarkerLog.recover_miss _ _ _ marked hit]

end Protocol
end KaiOs
