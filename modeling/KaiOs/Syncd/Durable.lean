import KaiOs.Lib.Runs
import KaiOs.Syncd.SyncedRuns

/-! What a sync node is for: a map that outlives its process. In every run in which no kill comes inside a
checkpoint, the node and its disk go through the states of that map. -/
namespace KaiOs.Syncd
open WriteAheadLog

/-- The calls of a node and what may happen to it. -/
inductive Act where
  | boot
  | apply (tx : Tx)
  | checkpoint (height : UInt64) (tip : String)
  | sync (snap : SyncSnapshot)
  | kill
  | killInApply (tx : Tx)

structure SyncNode where
  disk : Disk
  process : Option PersistentState

section
variable (E : Externals)

/-- The map that is meant: transactions change it, and a snapshot replaces it unless its root is false. -/
def effect (s : StateStore) : Act → StateStore
  | .apply tx | .killInApply tx => s.apply tx
  | .sync snap => match verifySnapshot E snap with
    | .ok store => store
    | .error _ => s
  | .boot | .checkpoint _ _ | .kill => s

namespace SyncNode

def fresh : SyncNode := ⟨⟨none, none⟩, none⟩

/-- A boot needs a node that is down, and every call one that is up. -/
def step (node : SyncNode) : Act → Option SyncNode
  | .boot => match node.process, PersistentState.openState E node.disk with
    | none, .ok (ps, disk) => some ⟨disk, some ps⟩
    | _, _ => none
  | .apply tx => node.process.map fun ps =>
      ⟨(ps.apply E node.disk tx .ok).2.1, some (ps.apply E node.disk tx .ok).1⟩
  | .checkpoint height tip => node.process.map fun ps =>
      ⟨(ps.checkpoint E node.disk height tip .ok .ok).2.1, some (ps.checkpoint E node.disk height tip .ok .ok).1⟩
  | .sync snap => node.process.map fun ps =>
      ⟨(persistVerified E ps node.disk snap .ok .ok).2.1, some (persistVerified E ps node.disk snap .ok .ok).1⟩
  | .kill => some ⟨node.disk, none⟩
  | .killInApply tx => node.process.map fun ps => ⟨(ps.apply E node.disk tx .ok).2.1, none⟩

end SyncNode

/-- Before its first marker a node has nothing but its log. -/
structure Unmarked (ps : PersistentState) (disk : Disk) (log : List WalOp) : Prop where
  follows : Follows E ps log
  written : Written E disk log
  bare : disk.snapshot = none
  clear : ∀ op ∈ log, op.checkpoint? = none
  current : ps.store = applyOps .new log

/-- The disk stands behind a process with the map's state, be it the running one or one that was killed. -/
def Backs (disk : Disk) (ps : PersistentState) : Prop :=
  ∃ log, Unmarked E ps disk log ∨ ∃ saved, Saved E ps disk log saved

/-- The node stands where the map does. -/
def Stands (node : SyncNode) (s : StateStore) : Prop :=
  ∃ ps, Backs E node.disk ps ∧ ps.store = s ∧ ∀ running ∈ node.process, running = ps

end

section
variable {E : Externals}

theorem Unmarked.apply {ps : PersistentState} {disk : Disk} {log : List WalOp} (h : Unmarked E ps disk log)
    (tx : Tx) : Unmarked E (ps.apply E disk tx .ok).1 (ps.apply E disk tx .ok).2.1 (log ++ [.apply tx]) := by
  obtain ⟨process, left⟩ := apply_eq h.follows h.written tx
  rw [process, left]
  refine ⟨rfl, rfl, h.bare, ?_, ?_⟩
  · intro op member
    obtain old | new := List.mem_append.mp member
    · exact h.clear op old
    · rw [List.mem_singleton.mp new]
      rfl
  · rw [applyOps_append, ← h.current]
    rfl

theorem Backs.apply {ps : PersistentState} {disk : Disk} (h : Backs E disk ps) (tx : Tx) :
    Backs E (ps.apply E disk tx .ok).2.1 (ps.apply E disk tx .ok).1 := by
  obtain ⟨log, unmarked | ⟨saved, marked⟩⟩ := h
  · exact ⟨_, .inl (unmarked.apply tx)⟩
  · exact ⟨_, .inr ⟨saved, marked.apply tx⟩⟩

theorem Backs.whole {ps : PersistentState} {disk : Disk} (h : Backs E disk ps) :
    ∃ log, Follows E ps log ∧ Written E disk log := by
  obtain ⟨log, unmarked | ⟨saved, marked⟩⟩ := h
  · exact ⟨log, unmarked.follows, unmarked.written⟩
  · exact ⟨log, marked.follows, marked.written⟩

theorem Backs.boot (format : E.record.LineFormat) {ps : PersistentState} {disk : Disk} (h : Backs E disk ps) :
    ∃ ps' disk', PersistentState.openState E disk = .ok (ps', disk') ∧ ps'.store = ps.store ∧ Backs E disk' ps' := by
  obtain ⟨log, unmarked | ⟨saved, marked⟩⟩ := h
  · have calm : loadSnapshotStore E disk.snapshot ≠ .panicked := by simp [unmarked.bare, loadSnapshotStore]
    have recovered : MarkerLog.recover StateStore.apply (StateStore.stateRoot E.shaHex) .new (log.map WalOp.entry)
        (storedStore E disk.snapshot) = applyOps .new log := by
      rw [MarkerLog.recover_unmarked _ _ _ (lastMarker_clear unmarked.clear), applyOps_eq]
    have opened := openState_eq format unmarked.written calm
    rw [recovered] at opened
    exact ⟨_, _, opened, unmarked.current.symm, log, .inl ⟨rfl, unmarked.written, unmarked.bare, unmarked.clear, rfl⟩⟩
  · obtain ⟨ps', disk', opened, same⟩ := marked.open format
    obtain ⟨follows, written⟩ := openState_follows format marked.written opened
    refine ⟨ps', disk', opened, same, log, .inr ⟨saved, follows, written, ?_, ?_⟩⟩
    · rw [PersistentState.openState_snapshot E opened]
      exact marked.loads
    · rw [same]
      exact marked.marked

variable (format : E.record.LineFormat) (trip : E.snapshot.RoundTrips)
include format trip

theorem Stands.step {node node' : SyncNode} {s : StateStore} (stands : Stands E node s) {act : Act}
    (step : node.step E act = some node') : Stands E node' (effect E s act) := by
  obtain ⟨ps, backs, rfl, process⟩ := stands
  have running {next : PersistentState → SyncNode} (called : node.process.map next = some node') :
      next ps = node' := by
    obtain ⟨ps', up, same⟩ := Option.map_eq_some_iff.mp called
    rw [← process ps' up]
    exact same
  cases act with
  | boot =>
      obtain ⟨ps', disk', opened, same, backs'⟩ := backs.boot format
      simp only [SyncNode.step, opened] at step
      split at step
      · next booted =>
          cases booted
          cases step
          exact ⟨ps', backs', same, by simp⟩
      · cases step
  | apply tx =>
      obtain rfl := running step
      exact ⟨_, backs.apply tx, rfl, by simp⟩
  | checkpoint height tip =>
      obtain rfl := running step
      obtain ⟨log, follows, written⟩ := backs.whole
      refine ⟨_, ⟨_, .inr ⟨_, checkpoint_saved trip follows written height tip⟩⟩, ?_, by simp⟩
      exact PersistentState.checkpoint_store ..
  | sync snap =>
      obtain rfl := running step
      cases verified : verifySnapshot E snap with
      | error e =>
          simp only [persistVerified, effect, verified]
          exact ⟨ps, backs, rfl, by simp⟩
      | ok store =>
          obtain ⟨log, follows, written⟩ := backs.whole
          have done := eq_of_result (persistVerified_ok trip ps node.disk verified)
          obtain ⟨entries, saved⟩ := sync_saved trip follows written done
          refine ⟨_, ⟨_, .inr ⟨_, saved⟩⟩, ?_, by simp⟩
          rw [entries, effect, verified]
          exact (verifySnapshot_ok.mp verified).1.symm
  | kill =>
      cases step
      exact ⟨ps, backs, rfl, by simp⟩
  | killInApply tx =>
      obtain rfl := running step
      exact ⟨_, backs.apply tx, rfl, by simp⟩

/-- However applies, checkpoints, syncs, kills and starts follow each other from an empty disk: a running node has
the state of the map that is meant, and what a start finds on the disk is that state too. -/
theorem durable_map {acts : List Act} {node : SyncNode}
    (run : Runs.run (SyncNode.step E) SyncNode.fresh acts = some node) :
    (∀ ps ∈ node.process, ps.store = acts.foldl (effect E) .new) ∧
    ∃ ps disk, PersistentState.openState E node.disk = .ok (ps, disk) ∧ ps.store = acts.foldl (effect E) .new := by
  have start : Stands E SyncNode.fresh .new :=
    ⟨⟨.new, genesis⟩, ⟨[], .inl ⟨rfl, rfl, rfl, by simp, rfl⟩⟩, rfl, by simp [SyncNode.fresh]⟩
  have keeps (node : SyncNode) (s : StateStore) (act : Act) (node' : SyncNode) (stands : Stands E node s)
      (step : node.step E act = some node') : Stands E node' (effect E s act) := stands.step format trip step
  obtain ⟨ps, backs, same, process⟩ := Runs.run_simulates keeps start run
  rw [← same]
  refine ⟨fun running up => congrArg _ (process running up), ?_⟩
  obtain ⟨ps', disk', opened, found, -⟩ := backs.boot format
  exact ⟨ps', disk', opened, found⟩

end

/-- A node that takes over a snapshot and is killed behind the record of its next transaction. -/
def firstKilled : SyncNode := ⟨(firstSync.1.apply jsonNode firstSync.2.1 (.set "b" "2") .ok).2.1, none⟩

theorem firstKilled_run : Runs.run (SyncNode.step jsonNode) SyncNode.fresh
    [.boot, .sync firstSnapshot, .killInApply (.set "b" "2")] = some firstKilled := by
  have booted : SyncNode.fresh.step jsonNode .boot = some ⟨⟨some [], none⟩, some ⟨.new, genesis⟩⟩ := rfl
  -- for any process and disk, so that nothing of them is evaluated
  have synced (disk : Disk) (ps : PersistentState) (snap : SyncSnapshot) :
      SyncNode.step jsonNode ⟨disk, some ps⟩ (.sync snap) =
        some ⟨(persistVerified jsonNode ps disk snap .ok .ok).2.1,
          some (persistVerified jsonNode ps disk snap .ok .ok).1⟩ := rfl
  have killed (disk : Disk) (ps : PersistentState) (tx : Tx) :
      SyncNode.step jsonNode ⟨disk, some ps⟩ (.killInApply tx) =
        some ⟨(ps.apply jsonNode disk tx .ok).2.1, none⟩ := rfl
  rw [Runs.run_of_step booted, Runs.run_of_step (synced _ _ _), Runs.run_of_step (killed _ _ _), Runs.run,
    firstKilled, firstSync]

theorem durable_map_first : ∃ ps disk, PersistentState.openState jsonNode firstKilled.disk = .ok (ps, disk) ∧
    ps.store = (StateStore.new.apply (.set "a" "1")).apply (.set "b" "2") := by
  obtain ⟨-, ps, disk, opened, found⟩ := durable_map jsonWal_format jsonNode_roundTrips firstKilled_run
  refine ⟨ps, disk, opened, ?_⟩
  rw [found]
  simp only [List.foldl_cons, List.foldl_nil, effect, firstSnapshot_verifies]

end KaiOs.Syncd
