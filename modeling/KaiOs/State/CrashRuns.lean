import KaiOs.State.Recovery
import KaiOs.State.SnapshotJson

/-! Runs of a node with crashes. The log is written whole, the snapshot file may be
left in any state a crash can leave it in; a reopen rebuilds what the log says. -/
namespace KaiOs
open Utf8 WriteAheadLog

/-- A point at which the process dies: at rest, or inside a call. -/
inductive Crash where
  | atRest
  | afterRecord (tx : Tx)
  | afterMarker (height : UInt64) (tipBlockHash : String)
  | duringSnapshot (height : UInt64) (tipBlockHash : String) (written : ℕ)

section
variable (E : Externals)

namespace PersistentState

/-- The marker a checkpoint logs. -/
def marker (ps : PersistentState) (height : UInt64) (tipBlockHash : String) : WalOp :=
  .checkpoint height tipBlockHash (ps.store.stateRoot E.shaHex)

/-- The disk a crash leaves. A call that is cut off has done what it does before an
error at that point. -/
def crashDisk (ps : PersistentState) (disk : Disk) : Crash → Disk
  | .atRest => disk
  | .afterRecord tx => (ps.apply E disk tx .ok).2.1
  | .afterMarker height tip => (ps.checkpoint E disk height tip .ok .createFails).2.1
  | .duringSnapshot height tip written =>
      (ps.checkpoint E disk height tip .ok (.writeFails written)).2.1

/-- What the cut-off call had logged. -/
def crashOps (ps : PersistentState) : Crash → List WalOp
  | .atRest => []
  | .afterRecord tx => [.apply tx]
  | .afterMarker height tip => [ps.marker E height tip]
  | .duringSnapshot height tip _ => [ps.marker E height tip]

end PersistentState

/-- The runs of a node from an empty disk: the disk, the running process if there is
one, and the ops logged so far. -/
inductive Reaches : Disk → Option PersistentState → List WalOp → Prop where
  | fresh : Reaches ⟨none, none⟩ none []
  | openState {disk process log ps disk'} : Reaches disk process log →
      PersistentState.openState E disk = .ok (ps, disk') → Reaches disk' (some ps) log
  | apply {disk ps log} (tx : Tx) : Reaches disk (some ps) log →
      Reaches (ps.apply E disk tx .ok).2.1 (some (ps.apply E disk tx .ok).1) (log ++ [.apply tx])
  | checkpoint {disk ps log} (height : UInt64) (tip : String) : Reaches disk (some ps) log →
      Reaches (ps.checkpoint E disk height tip .ok .ok).2.1
        (some (ps.checkpoint E disk height tip .ok .ok).1) (log ++ [ps.marker E height tip])
  | crash {disk ps log} (c : Crash) : Reaches disk (some ps) log →
      Reaches (ps.crashDisk E disk c) none (log ++ ps.crashOps E c)

def logFile (log : List WalOp) : Bytes :=
  logBytes E.toWalExternals (genesis.chain E.toWalExternals log)

/-- The log file holds exactly these ops, record by record. -/
def Written (disk : Disk) (log : List WalOp) : Prop := disk.wal.getD [] = logFile E log

/-- The handle stands behind these ops. -/
def Follows (ps : PersistentState) (log : List WalOp) : Prop :=
  ps.wal = genesis.advance E.toWalExternals log

/-- The roots that markers and snapshots have to tell apart. -/
def logStates (log : List WalOp) : Set StateStore :=
  MarkerLog.states StateStore.apply .new (log.map WalOp.entry)

end

variable {E : Externals}

theorem checkpoint_ok (trip : E.snapshot.RoundTrips) (ps : PersistentState) (disk : Disk)
    (height : UInt64) (tip : String) : (ps.checkpoint E disk height tip .ok .ok).2.2 = .ok () := by
  simp only [PersistentState.checkpoint, appendOp, save_ok trip]

section Calls
variable {ps : PersistentState} {disk : Disk} {log : List WalOp} (follows : Follows E ps log)
include follows

theorem advance_concat (op : WalOp) :
    ps.wal.next E.toWalExternals op = genesis.advance E.toWalExternals (log ++ [op]) := by
  rw [advance_append, ← follows]
  rfl

variable (written : Written E disk log)
include written

theorem written_append (op : WalOp) :
    disk.wal.getD [] ++ recordLine E.toWalExternals (ps.wal.nextRecord op) =
      logFile E (log ++ [op]) := by
  rw [written, follows, logFile, logFile, chain_append, logBytes_append]
  exact congrArg _ (List.append_nil _).symm

theorem apply_eq (tx : Tx) :
    (ps.apply E disk tx .ok).1 =
        ⟨ps.store.apply tx, genesis.advance E.toWalExternals (log ++ [.apply tx])⟩ ∧
      (ps.apply E disk tx .ok).2.1 = ⟨some (logFile E (log ++ [.apply tx])), disk.snapshot⟩ := by
  rw [← advance_concat follows, ← written_append follows written]
  exact ⟨rfl, rfl⟩

theorem checkpoint_eq (height : UInt64) (tip : String) (io : WriteIo) :
    (ps.checkpoint E disk height tip .ok io).1 =
        ⟨ps.store, genesis.advance E.toWalExternals (log ++ [ps.marker E height tip])⟩ ∧
      (ps.checkpoint E disk height tip .ok io).2.1 =
        ⟨some (logFile E (log ++ [ps.marker E height tip])),
          (saveSnapshotStore E ps.store height tip disk.snapshot io).1⟩ := by
  rw [← advance_concat follows, ← written_append follows written]
  simp only [PersistentState.checkpoint, appendOp]
  cases (saveSnapshotStore E ps.store height tip disk.snapshot io).2 <;> exact ⟨rfl, rfl⟩

end Calls

section Open
variable (format : E.record.LineFormat)
include format

theorem readOps_written {disk : Disk} {log : List WalOp} (written : Written E disk log) :
    PersistentState.readOps E disk.wal = .ok log := by
  have read : replay E.toWalExternals (some (disk.wal.getD [])) =
      .ok (log, (genesis.advance E.toWalExternals log).seq,
        (genesis.advance E.toWalExternals log).prevHash) := by
    rw [written, logFile, replay_iff]
    exact ⟨(whole_logBytes format _).reads, rfl⟩
  cases found : disk.wal with
  | none =>
      rw [found, Option.getD_none, replay_nil] at read
      cases read
      rfl
  | some file =>
      rw [found, Option.getD_some] at read
      simp only [PersistentState.readOps, read]

theorem openLog_written {disk : Disk} {log : List WalOp} (written : Written E disk log) :
    openLog E.toWalExternals disk.wal =
      .ok (genesis.advance E.toWalExternals log, disk.wal.getD []) := by
  rw [openLog_iff]
  refine ⟨rfl, log, ?_⟩
  rw [written, logFile, replay_iff]
  exact ⟨(whole_logBytes format _).reads, rfl⟩

theorem openState_eq {disk : Disk} {log : List WalOp} (written : Written E disk log)
    (calm : loadSnapshotStore E disk.snapshot ≠ .panicked) :
    PersistentState.openState E disk = .ok
      (⟨MarkerLog.recover StateStore.apply (StateStore.stateRoot E.shaHex) .new
          (log.map WalOp.entry) (storedStore E disk.snapshot),
        genesis.advance E.toWalExternals log⟩,
        { disk with wal := some (disk.wal.getD []) }) := by
  obtain ⟨base, appliedFrom, chosen, recovered⟩ := recoveryBase_eq log calm
  simp only [PersistentState.openState, readOps_written format written, chosen,
    openLog_written format written, recovered]

theorem openState_follows {disk disk' : Disk} {log : List WalOp} {ps : PersistentState}
    (written : Written E disk log)
    (opened : PersistentState.openState E disk = .ok (ps, disk')) :
    Follows E ps log ∧ Written E disk' log := by
  simp only [PersistentState.openState, readOps_written format written,
    openLog_written format written] at opened
  split at opened
  · cases opened
  · cases opened
  · cases opened
    exact ⟨rfl, written⟩

end Open

section Runs

/-- What every disk of a run satisfies. -/
structure Sound (E : Externals) (disk : Disk) (log : List WalOp) : Prop where
  written : Written E disk log
  calm : loadSnapshotStore E disk.snapshot ≠ .panicked
  consistent : MarkerLog.Consistent StateStore.apply (StateStore.stateRoot E.shaHex) .new
    (log.map WalOp.entry) (storedStore E disk.snapshot)

theorem logStates_append (log more : List WalOp) : logStates log ⊆ logStates (log ++ more) := by
  intro s member
  rw [logStates, List.map_append]
  exact MarkerLog.states_append _ member

theorem Sound.apply {ps : PersistentState} {disk : Disk} {log : List WalOp}
    (sound : Sound E disk log) (follows : Follows E ps log) (tx : Tx) :
    Sound E (ps.apply E disk tx .ok).2.1 (log ++ [.apply tx]) := by
  rw [(apply_eq follows sound.written tx).2]
  refine ⟨rfl, sound.calm, ?_⟩
  rw [List.map_append]
  exact sound.consistent.tx tx

theorem Sound.openState (format : E.record.LineFormat) {disk disk' : Disk} {log : List WalOp}
    {ps : PersistentState} (sound : Sound E disk log)
    (inj : Set.InjOn (StateStore.stateRoot E.shaHex) (logStates log))
    (opened : PersistentState.openState E disk = .ok (ps, disk')) :
    Sound E disk' log ∧ Follows E ps log ∧ ps.store = applyOps .new log := by
  rw [openState_eq format sound.written sound.calm] at opened
  cases opened
  refine ⟨⟨sound.written, sound.calm, sound.consistent⟩, rfl, ?_⟩
  rw [applyOps_eq]
  exact sound.consistent.recover_eq inj

variable (trip : E.snapshot.RoundTrips) (prefixes : E.snapshot.RejectsPrefixes)
  (empty : E.snapshot.RejectsEmpty)
include trip prefixes empty

/-- A write leaves the old file, an unreadable one, or the store it was given. -/
theorem save_leaves (store : StateStore) (height : UInt64) (tip : String) (path : Option Bytes)
    (io : WriteIo) :
    (saveSnapshotStore E store height tip path io).1 = path ∨
      (loadSnapshotStore E (saveSnapshotStore E store height tip path io).1 ≠ .panicked ∧
        ∀ s ∈ storedStore E (saveSnapshotStore E store height tip path io).1, s = store) := by
  have complete : loadSnapshotStore E (some (snapshotBytes E store height tip)) ≠ .panicked ∧
      ∀ s ∈ storedStore E (some (snapshotBytes E store height tip)), s = store := by
    simp [storedStore, load_saved trip]
  cases io with
  | ok =>
      rw [save_ok trip]
      exact .inr complete
  | createFails => exact .inl rfl
  | writeFails n =>
      refine .inr ?_
      by_cases short : n < (snapshotBytes E store height tip).length
      · obtain ⟨e, refused⟩ := load_cut prefixes empty short
        simp [saveSnapshotStore, storedStore, refused]
      · simp only [saveSnapshotStore]
        rw [List.take_of_length_le (Nat.le_of_not_lt short)]
        exact complete

theorem Sound.checkpoint {ps : PersistentState} {disk : Disk} {log : List WalOp}
    (sound : Sound E disk log) (follows : Follows E ps log) (current : ps.store = applyOps .new log)
    (height : UInt64) (tip : String) (io : WriteIo) :
    Sound E (ps.checkpoint E disk height tip .ok io).2.1 (log ++ [ps.marker E height tip]) := by
  rw [(checkpoint_eq follows sound.written height tip io).2]
  rw [applyOps_eq] at current
  have marked := sound.consistent.marker
  rw [← current] at marked
  have entries : (log ++ [ps.marker E height tip]).map WalOp.entry =
      log.map WalOp.entry ++ [.marker (ps.store.stateRoot E.shaHex)] := List.map_append
  rcases save_leaves trip prefixes empty ps.store height tip disk.snapshot io with
    kept | ⟨calm, stored⟩
  · refine ⟨rfl, ?_, ?_⟩
    · rw [kept]
      exact sound.calm
    · rw [kept, entries]
      exact marked
  · refine ⟨rfl, calm, ?_⟩
    rw [entries]
    apply marked.store
    intro s member
    rw [stored s member, MarkerLog.replay_marker, current]

variable (format : E.record.LineFormat)
include format

theorem Reaches.sound {disk : Disk} {process : Option PersistentState} {log : List WalOp}
    (run : Reaches E disk process log)
    (inj : Set.InjOn (StateStore.stateRoot E.shaHex) (logStates log)) :
    Sound E disk log ∧ ∀ ps ∈ process, Follows E ps log ∧ ps.store = applyOps .new log := by
  induction run with
  | fresh =>
      refine ⟨⟨rfl, by simp [loadSnapshotStore], MarkerLog.Consistent.nil⟩, ?_⟩
      intro ps member
      cases member
  | openState _ opened ih =>
      obtain ⟨sound, follows, current⟩ :=
        (ih inj).1.openState format inj opened
      refine ⟨sound, ?_⟩
      intro ps member
      cases member
      exact ⟨follows, current⟩
  | apply tx _ ih =>
      obtain ⟨sound, process⟩ := ih (inj.mono (logStates_append _ _))
      obtain ⟨follows, current⟩ := process _ rfl
      refine ⟨sound.apply follows tx, ?_⟩
      intro ps member
      cases member
      rw [(apply_eq follows sound.written tx).1]
      exact ⟨rfl, by rw [applyOps_append, ← current]; rfl⟩
  | checkpoint height tip _ ih =>
      obtain ⟨sound, process⟩ := ih (inj.mono (logStates_append _ _))
      obtain ⟨follows, current⟩ := process _ rfl
      refine ⟨sound.checkpoint trip prefixes empty follows current height tip .ok, ?_⟩
      intro ps member
      cases member
      rw [(checkpoint_eq follows sound.written height tip .ok).1]
      exact ⟨rfl, by rw [applyOps_append, ← current]; rfl⟩
  | crash c _ ih =>
      obtain ⟨sound, process⟩ := ih (inj.mono (logStates_append _ _))
      obtain ⟨follows, current⟩ := process _ rfl
      constructor
      · cases c with
        | atRest =>
            rw [PersistentState.crashOps, List.append_nil]
            exact sound
        | afterRecord tx => exact sound.apply follows tx
        | afterMarker height tip =>
            exact sound.checkpoint trip prefixes empty follows current height tip .createFails
        | duringSnapshot height tip n =>
            exact sound.checkpoint trip prefixes empty follows current height tip (.writeFails n)
      · intro ps member
        cases member

/-- After every run a reopen succeeds, and the store is the fold of the logged
transactions. -/
theorem reopen_rebuilds_log {disk : Disk} {process : Option PersistentState} {log : List WalOp}
    (run : Reaches E disk process log)
    (inj : Set.InjOn (StateStore.stateRoot E.shaHex) (logStates log)) :
    PersistentState.readOps E disk.wal = .ok log ∧
      ∃ ps disk', PersistentState.openState E disk = .ok (ps, disk') ∧
        ps.store = applyOps .new log := by
  obtain ⟨sound, _⟩ := run.sound trip prefixes empty format inj
  have opened := openState_eq format sound.written sound.calm
  exact ⟨readOps_written format sound.written, _, _, opened,
    (sound.openState format inj opened).2.2⟩

end Runs

/-- A node that was started on an empty disk and has logged one transaction. -/
def firstNode : PersistentState × Disk :=
  let (ps, disk, _) := PersistentState.apply jsonNode ⟨.new, genesis⟩ ⟨some [], none⟩
    (.set "a" "1") .ok
  (ps, disk)

theorem firstNode_reaches :
    Reaches jsonNode firstNode.2 (some firstNode.1) [.apply (.set "a" "1")] := by
  have opened : PersistentState.openState jsonNode ⟨none, none⟩ =
      .ok (⟨.new, genesis⟩, ⟨some [], none⟩) := rfl
  exact .apply (.set "a" "1") (.openState .fresh opened)

/-- It dies three bytes into the snapshot of its first checkpoint. -/
theorem reopen_rebuilds_first :
    PersistentState.readOps jsonNode
        (firstNode.1.crashDisk jsonNode firstNode.2 (.duringSnapshot 1 "t" 3)).wal =
      .ok [.apply (.set "a" "1"), firstNode.1.marker jsonNode 1 "t"] ∧
    ∃ ps disk', PersistentState.openState jsonNode
        (firstNode.1.crashDisk jsonNode firstNode.2 (.duringSnapshot 1 "t" 3)) = .ok (ps, disk') ∧
      ps.store = applyOps .new [.apply (.set "a" "1"), firstNode.1.marker jsonNode 1 "t"] := by
  apply reopen_rebuilds_log jsonNode_roundTrips jsonNode_rejectsPrefixes jsonNode_rejectsEmpty
    jsonWal_format (firstNode_reaches.crash (.duringSnapshot 1 "t" 3))
  have states : logStates [.apply (.set "a" "1"), firstNode.1.marker jsonNode 1 "t"] =
      {StateStore.new, StateStore.new.apply (.set "a" "1")} := by
    simp [logStates, WalOp.entry, MarkerLog.states_cons, MarkerLog.states_nil, MarkerLog.replay,
      PersistentState.marker]
  exact states ▸ Set.injOn_pair.mpr fun same => absurd same (by decide +kernel)

end KaiOs
