import KaiOs.Syncd.Snapshot

/-! What a node recovers after a sync. The synced entries are not in the log: they
survive as long as a snapshot does that was written after the sync. -/
namespace KaiOs.Syncd
open Utf8 WriteAheadLog

inductive Call where
  | apply (tx : Tx)
  | checkpoint (height : UInt64) (tipBlockHash : String)

section
variable (E : Externals)

def perform (ps : PersistentState) (disk : Disk) : Call → PersistentState × Disk
  | .apply tx => ((ps.apply E disk tx .ok).1, (ps.apply E disk tx .ok).2.1)
  | .checkpoint height tip =>
      ((ps.checkpoint E disk height tip .ok .ok).1, (ps.checkpoint E disk height tip .ok .ok).2.1)

def runCalls (ps : PersistentState) (disk : Disk) : List Call → PersistentState × Disk
  | [] => (ps, disk)
  | call :: calls => runCalls (perform E ps disk call).1 (perform E ps disk call).2 calls

def callOp (ps : PersistentState) : Call → WalOp
  | .apply tx => .apply tx
  | .checkpoint height tip => ps.marker E height tip

/-- The ops a sequence of calls logs. -/
def callOps (ps : PersistentState) (disk : Disk) : List Call → List WalOp
  | [] => []
  | call :: calls =>
      callOp E ps call :: callOps (perform E ps disk call).1 (perform E ps disk call).2 calls

/-- The store in the snapshot file, where `saved` is in it at first. -/
def lastSaved (saved current : StateStore) : List Call → StateStore
  | [] => saved
  | .apply tx :: calls => lastSaved saved (current.apply tx) calls
  | .checkpoint _ _ :: calls => lastSaved current current calls

/-- The crash leaves the snapshot file in step with the last marker, or what it leaves
says the same: the old snapshot, or the transactions of the whole log `log`. -/
def Survives (log : List WalOp) (saved : StateStore) (ps : PersistentState) : Crash → Prop
  | .atRest => True
  | .afterRecord _ => True
  | .afterMarker _ _ => saved = ps.store ∨ applyOps .new log = ps.store
  | .duringSnapshot height tip written =>
      (snapshotBytes E ps.store height tip).length ≤ written ∨ applyOps .new log = ps.store

/-- The disk belongs to a node that has saved `saved` with its last marker and has only
logged transactions since. -/
structure Saved (ps : PersistentState) (disk : Disk) (log : List WalOp) (saved : StateStore) :
    Prop where
  follows : Follows E ps log
  written : Written E disk log
  loads : loadSnapshotStore E disk.snapshot = .ok saved
  marked : ∃ before height tip after,
    log = before ++ .checkpoint height tip (saved.stateRoot E.shaHex) :: after ∧
      (∀ op ∈ after, op.checkpoint? = none) ∧ ps.store = applyOps saved after

end

variable {E : Externals}

theorem checkpoint_saved (trip : E.snapshot.RoundTrips) {ps : PersistentState} {disk : Disk}
    {log : List WalOp} (follows : Follows E ps log) (written : Written E disk log) (height : UInt64)
    (tip : String) :
    Saved E (ps.checkpoint E disk height tip .ok .ok).1 (ps.checkpoint E disk height tip .ok .ok).2.1
      (log ++ [ps.marker E height tip]) ps.store := by
  obtain ⟨process, left⟩ := checkpoint_eq follows written height tip .ok
  rw [process, left, save_ok trip]
  exact ⟨rfl, rfl, load_saved trip _ _ _, log, height, tip, [], rfl, by simp, rfl⟩

theorem Saved.apply {ps : PersistentState} {disk : Disk} {log : List WalOp} {saved : StateStore}
    (h : Saved E ps disk log saved) (tx : Tx) :
    Saved E (ps.apply E disk tx .ok).1 (ps.apply E disk tx .ok).2.1 (log ++ [.apply tx]) saved := by
  obtain ⟨process, left⟩ := apply_eq h.follows h.written tx
  rw [process, left]
  obtain ⟨before, height, tip, after, rfl, clear, current⟩ := h.marked
  refine ⟨rfl, rfl, h.loads, before, height, tip, after ++ [.apply tx], by simp, ?_, ?_⟩
  · intro op member
    rcases List.mem_append.mp member with old | new
    · exact clear op old
    · rw [List.mem_singleton.mp new]
      rfl
  · rw [applyOps_append, ← current]
    rfl

theorem Saved.runCalls (trip : E.snapshot.RoundTrips) {ps : PersistentState} {disk : Disk}
    {log : List WalOp} {saved : StateStore} (h : Saved E ps disk log saved) (calls : List Call) :
    Saved E (runCalls E ps disk calls).1 (runCalls E ps disk calls).2
      (log ++ callOps E ps disk calls) (lastSaved saved ps.store calls) := by
  induction calls generalizing ps disk log saved with
  | nil =>
      rw [callOps, List.append_nil]
      exact h
  | cons call calls ih =>
      rw [callOps, List.append_cons]
      cases call with
      | apply tx => exact ih (h.apply tx)
      | checkpoint height tip =>
          have rest := ih (checkpoint_saved trip h.follows h.written height tip)
          rw [PersistentState.checkpoint_store] at rest
          exact rest

theorem perform_store (ps : PersistentState) (disk : Disk) (call : Call) (ops : List WalOp) :
    applyOps (perform E ps disk call).1.store ops = applyOps ps.store (callOp E ps call :: ops) := by
  cases call with
  | apply tx => rfl
  | checkpoint height tip =>
      rw [perform, PersistentState.checkpoint_store]
      rfl

theorem runCalls_store (ps : PersistentState) (disk : Disk) (calls : List Call) :
    (Syncd.runCalls E ps disk calls).1.store = applyOps ps.store (callOps E ps disk calls) := by
  induction calls generalizing ps disk with
  | nil => rfl
  | cons call calls ih =>
      rw [Syncd.runCalls, ih, callOps, perform_store]

section Open
variable (format : E.record.LineFormat) {ps : PersistentState} {disk : Disk} {log : List WalOp}
  {saved : StateStore}
include format

theorem Saved.open (h : Saved E ps disk log saved) :
    ∃ ps' disk', PersistentState.openState E disk = .ok (ps', disk') ∧ ps'.store = ps.store := by
  have calm : loadSnapshotStore E disk.snapshot ≠ .panicked := by simp [h.loads]
  refine ⟨_, _, openState_eq format h.written calm, ?_⟩
  obtain ⟨before, height, tip, after, rfl, clear, current⟩ := h.marked
  have stored : storedStore E disk.snapshot = some saved := by simp only [storedStore, h.loads]
  rw [stored, List.map_append, List.map_cons]
  exact (MarkerLog.recover_hit _ _ _ _ (lastMarker_clear clear)).trans
    ((applyOps_eq saved after).symm.trans current.symm)

/-- Opening behind a marker, whatever is in the snapshot file. -/
theorem open_marked_iff (log : List WalOp) {snapshot : Option Bytes}
    (calm : loadSnapshotStore E snapshot ≠ .panicked) (ps : PersistentState) (height : UInt64)
    (tip : String) (s : StateStore) :
    (∃ ps' disk', PersistentState.openState E
        ⟨some (logFile E (log ++ [ps.marker E height tip])), snapshot⟩ = .ok (ps', disk') ∧
        ps'.store = s) ↔
      MarkerLog.recover StateStore.apply (StateStore.stateRoot E.shaHex) .new
        (log.map WalOp.entry ++ [.marker (ps.store.stateRoot E.shaHex)])
        (storedStore E snapshot) = s := by
  have written : Written E ⟨some (logFile E (log ++ [ps.marker E height tip])), snapshot⟩
    (log ++ [ps.marker E height tip]) := rfl
  have opened := openState_eq format written calm
  rw [List.map_append] at opened
  constructor
  · rintro ⟨ps', disk', found, rfl⟩
    cases opened.symm.trans found
    rfl
  · intro same
    exact ⟨_, _, opened, same⟩

variable (h : Saved E ps disk log saved)
include h

theorem crash_after_marker_iff
    (inj : saved.stateRoot E.shaHex = ps.store.stateRoot E.shaHex → saved = ps.store)
    (height : UInt64) (tip : String) :
    (∃ ps' disk', PersistentState.openState E (ps.crashDisk E disk (.afterMarker height tip)) =
      .ok (ps', disk') ∧ ps'.store = ps.store) ↔ saved = ps.store ∨ applyOps .new log = ps.store := by
  have calm : loadSnapshotStore E disk.snapshot ≠ .panicked := by simp [h.loads]
  have stored : storedStore E disk.snapshot = some saved := by simp only [storedStore, h.loads]
  rw [PersistentState.crashDisk, (checkpoint_eq h.follows h.written height tip .createFails).2]
  refine (open_marked_iff format log calm ps height tip ps.store).trans ?_
  rw [stored]
  by_cases hit : saved.stateRoot E.shaHex = ps.store.stateRoot E.shaHex
  · rw [← hit, MarkerLog.recover_hit _ _ _ _ rfl]
    exact ⟨.inl, fun _ => inj hit⟩
  · have other : saved ≠ ps.store := fun same => hit (by rw [same])
    have marked := MarkerLog.lastMarker_append (log.map WalOp.entry) []
      (ps.store.stateRoot E.shaHex) rfl
    rw [MarkerLog.recover_miss _ _ _ marked hit, MarkerLog.replay_marker, ← applyOps_eq]
    exact (or_iff_right other).symm

variable (trip : E.snapshot.RoundTrips) (prefixes : E.snapshot.RejectsPrefixes)
  (empty : E.snapshot.RejectsEmpty)
include trip prefixes empty

theorem crash_during_snapshot_iff (height : UInt64) (tip : String) (n : ℕ) :
    (∃ ps' disk', PersistentState.openState E
      (ps.crashDisk E disk (.duringSnapshot height tip n)) = .ok (ps', disk') ∧
        ps'.store = ps.store) ↔
      (snapshotBytes E ps.store height tip).length ≤ n ∨ applyOps .new log = ps.store := by
  rw [PersistentState.crashDisk, (checkpoint_eq h.follows h.written height tip (.writeFails n)).2]
  by_cases short : n < (snapshotBytes E ps.store height tip).length
  · obtain ⟨e, refused⟩ := load_cut prefixes empty short
    have calm : loadSnapshotStore E
        (some ((snapshotBytes E ps.store height tip).take n)) ≠ .panicked := by simp [refused]
    have stored : storedStore E (some ((snapshotBytes E ps.store height tip).take n)) = none := by
      simp only [storedStore, refused]
    refine (open_marked_iff format log calm ps height tip ps.store).trans ?_
    rw [stored, MarkerLog.recover_none, MarkerLog.replay_marker, ← applyOps_eq]
    exact (or_iff_right (Nat.not_le_of_lt short)).symm
  · have complete : (snapshotBytes E ps.store height tip).length ≤ n := Nat.le_of_not_lt short
    have opened := (checkpoint_saved trip h.follows h.written height tip).open format
    rw [PersistentState.checkpoint_store, (checkpoint_eq h.follows h.written height tip .ok).2,
      save_ok trip] at opened
    simp only [saveSnapshotStore, List.take_of_length_le complete]
    exact iff_of_true opened (.inl complete)

theorem crash_recovers_iff
    (inj : saved.stateRoot E.shaHex = ps.store.stateRoot E.shaHex → saved = ps.store)
    (crash : Crash) :
    (∃ ps' disk', PersistentState.openState E (ps.crashDisk E disk crash) = .ok (ps', disk') ∧
      ps'.store = applyOps ps.store (ps.crashOps E crash)) ↔ Survives E log saved ps crash := by
  cases crash with
  | atRest => exact iff_of_true (h.open format) trivial
  | afterRecord tx => exact iff_of_true ((h.apply tx).open format) trivial
  | afterMarker height tip => exact crash_after_marker_iff format h inj height tip
  | duringSnapshot height tip n =>
      exact crash_during_snapshot_iff format h trip prefixes empty height tip n

end Open

/-- The stores a node goes through in a sequence of calls. -/
def callStates (E : Externals) (ps : PersistentState) (disk : Disk) (calls : List Call) :
    Set StateStore :=
  {s | ∃ front back, callOps E ps disk calls = front ++ back ∧ s = applyOps ps.store front}

theorem store_mem_callStates (ps : PersistentState) (disk : Disk) (calls : List Call) :
    (Syncd.runCalls E ps disk calls).1.store ∈ callStates E ps disk calls :=
  ⟨callOps E ps disk calls, [], (List.append_nil _).symm, runCalls_store ps disk calls⟩

theorem callStates_cons (ps : PersistentState) (disk : Disk) (call : Call) (calls : List Call) :
    callStates E (perform E ps disk call).1 (perform E ps disk call).2 calls ⊆
      callStates E ps disk (call :: calls) := by
  rintro s ⟨front, back, same, rfl⟩
  refine ⟨callOp E ps call :: front, back, ?_, perform_store ps disk call front⟩
  rw [callOps, same, List.cons_append]

theorem lastSaved_mem (saved : StateStore) (ps : PersistentState) (disk : Disk) (calls : List Call) :
    lastSaved saved ps.store calls = saved ∨
      lastSaved saved ps.store calls ∈ callStates E ps disk calls := by
  induction calls generalizing saved ps disk with
  | nil => exact .inl rfl
  | cons call calls ih =>
      cases call with
      | apply tx =>
          rcases ih saved (ps.apply E disk tx .ok).1 (ps.apply E disk tx .ok).2.1 with same | member
          · exact .inl same
          · exact .inr (callStates_cons ps disk (.apply tx) calls member)
      | checkpoint height tip =>
          have inner := ih ps.store (ps.checkpoint E disk height tip .ok .ok).1
            (ps.checkpoint E disk height tip .ok .ok).2.1
          rw [PersistentState.checkpoint_store] at inner
          rcases inner with same | member
          · exact .inr ⟨[], callOps E ps disk (.checkpoint height tip :: calls), rfl, same⟩
          · exact .inr (callStates_cons ps disk (.checkpoint height tip) calls member)

section Sync
variable (format : E.record.LineFormat) (trip : E.snapshot.RoundTrips)
  (prefixes : E.snapshot.RejectsPrefixes) (empty : E.snapshot.RejectsEmpty)
  {ps ps₁ : PersistentState} {disk disk₁ : Disk} {log : List WalOp} {snap : SyncSnapshot}
  (follows : Follows E ps log) (written : Written E disk log)
  (synced : persistVerified E ps disk snap .ok .ok = (ps₁, disk₁, .ok ()))
include trip follows written synced

theorem sync_saved :
    ps₁.store = .ofEntries snap.entries ∧ Saved E ps₁ disk₁
      (log ++ [.checkpoint snap.height snap.tipBlockHash snap.stateRoot]) ps₁.store := by
  cases verified : verifySnapshot E snap with
  | error e =>
      simp only [persistVerified, verified] at synced
      cases synced
  | ok store =>
      obtain ⟨process, left⟩ := persistVerified_eq ps disk verified .ok .ok
      rw [synced] at process left
      obtain ⟨rebuilt, root⟩ := verifySnapshot_ok.mp verified
      have rebuilt_follows : Follows E ⟨store, ps.wal⟩ log := follows
      have saved := checkpoint_saved trip rebuilt_follows written snap.height snap.tipBlockHash
      rw [← process, ← left, PersistentState.marker, root] at saved
      have kept : ps₁.store = store := by
        rw [show ps₁ = _ from process, PersistentState.checkpoint_store]
      rw [kept]
      exact ⟨rebuilt, saved⟩

include format prefixes empty

/-- A synced state survives a crash exactly if the crash leaves a snapshot that goes
with the last marker, or a log that says the same. -/
theorem open_after_sync_iff (calls : List Call) (crash : Crash)
    (inj : Set.InjOn (StateStore.stateRoot E.shaHex) (callStates E ps₁ disk₁ calls)) :
    (∃ ps' disk', PersistentState.openState E
        ((runCalls E ps₁ disk₁ calls).1.crashDisk E (runCalls E ps₁ disk₁ calls).2 crash) =
          .ok (ps', disk') ∧
      ps'.store = applyOps (.ofEntries snap.entries)
        (callOps E ps₁ disk₁ calls ++ (runCalls E ps₁ disk₁ calls).1.crashOps E crash)) ↔
      Survives E (log ++ [.checkpoint snap.height snap.tipBlockHash snap.stateRoot] ++
          callOps E ps₁ disk₁ calls)
        (lastSaved (.ofEntries snap.entries) (.ofEntries snap.entries) calls)
        (runCalls E ps₁ disk₁ calls).1 crash := by
  obtain ⟨entries, saved⟩ := sync_saved trip follows written synced
  have later := saved.runCalls trip calls
  rw [applyOps_append, ← entries, ← runCalls_store]
  refine crash_recovers_iff format later trip prefixes empty ?_ crash
  intro same
  refine inj ?_ (store_mem_callStates ps₁ disk₁ calls) same
  rcases lastSaved_mem (E := E) ps₁.store ps₁ disk₁ calls with kept | member
  · rw [kept]
    exact ⟨[], callOps E ps₁ disk₁ calls, rfl, rfl⟩
  · exact member

end Sync

section First

/-- A snapshot with one entry, and the node on an empty disk that persists it. -/
def firstSnapshot : SyncSnapshot :=
  snapshotFromStore jsonNode (StateStore.new.apply (.set "a" "1")) 1 "t"

def firstSync : PersistentState × Disk × Outcome SyncError Unit :=
  persistVerified jsonNode ⟨.new, genesis⟩ ⟨some [], none⟩ firstSnapshot .ok .ok

theorem firstSnapshot_verifies :
    verifySnapshot jsonNode firstSnapshot = .ok (StateStore.new.apply (.set "a" "1")) :=
  snapshotFromStore_verifies _ 1 "t"

theorem firstSync_ok : firstSync = (firstSync.1, firstSync.2.1, .ok ()) :=
  eq_of_result (persistVerified_ok jsonNode_roundTrips _ _ firstSnapshot_verifies)

theorem first_follows : Follows jsonNode ⟨.new, genesis⟩ [] := rfl

theorem first_written : Written jsonNode ⟨some [], none⟩ [] := rfl

theorem firstSync_store : firstSync.1.store = StateStore.new.apply (.set "a" "1") := by
  rw [(sync_saved jsonNode_roundTrips first_follows first_written firstSync_ok).1, firstSnapshot,
    snapshotFromStore, StateStore.ofEntries_toList]

/-- The next checkpoint dies when it has emptied the snapshot file: the entry is lost. -/
theorem sync_lost :
    firstSync.2.2 = .ok () ∧
      ¬ ∃ ps' disk', PersistentState.openState jsonNode
          (firstSync.1.crashDisk jsonNode firstSync.2.1 (.duringSnapshot 2 "t" 0)) =
            .ok (ps', disk') ∧
        ps'.store = applyOps (.ofEntries firstSnapshot.entries)
          (firstSync.1.crashOps jsonNode (.duringSnapshot 2 "t" 0)) := by
  refine ⟨persistVerified_ok jsonNode_roundTrips _ _ firstSnapshot_verifies, ?_⟩
  obtain ⟨entries, saved⟩ :=
    sync_saved jsonNode_roundTrips first_follows first_written firstSync_ok
  rw [← entries]
  refine mt (crash_recovers_iff jsonWal_format saved jsonNode_roundTrips jsonNode_rejectsPrefixes
    jsonNode_rejectsEmpty (fun _ => rfl) (.duringSnapshot 2 "t" 0)).mp ?_
  rintro (nothing | forgotten)
  · have empty := utf8_eq_nil.mp (List.length_eq_zero_iff.mp (Nat.le_zero.mp nothing))
    exact jsonNode_braced.ne_empty _ empty
  · rw [firstSync_store] at forgotten
    have found := congrArg (fun s : StateStore => s.entries[("a" : String)]?) forgotten
    simp [applyOps, StateStore.new, StateStore.apply] at found

theorem sync_survives_record :
    ∃ ps' disk', PersistentState.openState jsonNode
        ((runCalls jsonNode firstSync.1 firstSync.2.1 []).1.crashDisk jsonNode
          (runCalls jsonNode firstSync.1 firstSync.2.1 []).2 (.afterRecord (.set "b" "2"))) =
            .ok (ps', disk') ∧
      ps'.store = applyOps (.ofEntries firstSnapshot.entries)
        (callOps jsonNode firstSync.1 firstSync.2.1 [] ++
          (runCalls jsonNode firstSync.1 firstSync.2.1 []).1.crashOps jsonNode
            (.afterRecord (.set "b" "2"))) := by
  refine (open_after_sync_iff jsonWal_format jsonNode_roundTrips jsonNode_rejectsPrefixes
    jsonNode_rejectsEmpty first_follows first_written firstSync_ok []
    (.afterRecord (.set "b" "2")) ?_).mpr trivial
  rintro s ⟨front, back, same, rfl⟩ s' ⟨front', back', same', rfl⟩ _
  rw [(List.append_eq_nil_iff.mp same.symm).1, (List.append_eq_nil_iff.mp same'.symm).1]

end First
end KaiOs.Syncd
