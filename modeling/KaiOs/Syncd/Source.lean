import KaiOs.Syncd.Protocol
import Mathlib.Algebra.Order.Group.Nat
import Mathlib.Logic.Relation

/-! The source of `syncd/src/bin/kai-sync-node.rs`: it logs its transactions, checkpoints and offers the
snapshot to its peer until an ack comes. A source that was killed is started again with the same arguments. -/
namespace KaiOs.Syncd
open Utf8 Network WriteAheadLog

/-- `{i:04}` -/
def pad4 (i : ℕ) : String := String.ofList (List.leftpad 4 '0' (toString i).toList)

def txAt (i : ℕ) : Tx := .set s!"node/tx-{pad4 i}" s!"value-{pad4 i}"

def deterministicTxs (n : UInt64) : List Tx := (List.range n.toNat).map txAt

structure Args (ι : Type) where
  apply : UInt64
  retries : UInt32
  peer : Option ι

/-- What the source says on its output. -/
inductive Line where
  | bootFailed (e : WalError)
  | applied (root : String)
  | noPeer
  | syncFailed (attempt : ℕ) (e : Option SyncError)
  | syncOk (root : String)
  deriving DecidableEq

/-- Where `main` stands; `none` is a process that was killed or has not been started. -/
inductive SourceState where
  | ended (code : Option ℕ)
  | applying (ps : PersistentState) (i : ℕ)
  | syncing (ps : PersistentState) (attempt : ℕ)
  | awaiting (ps : PersistentState) (attempt c : ℕ)

structure SourceNode where
  disk : Disk
  state : SourceState
  said : List Line

/-- The call leaves nothing of its record or all of it. -/
def Whole : AppendIo → Prop
  | .ok | .syncFails => True
  | .writeFails written => written = 0

def tipName : String := "kai-sync-node"

section
variable {ι : Type} (E : SyncdExternals) (args : Args ι)

/-- A failed attempt: the next one, or the end. -/
def SourceNode.failed (node : SourceNode) (ps : PersistentState) (attempt : ℕ) (e : Option SyncError) : SourceNode :=
  { node with
    state := if attempt < args.retries.toNat then .syncing ps (attempt + 1) else .ended (some 1)
    said := node.said ++ [.syncFailed attempt e] }

/-- What becomes of `send_and_await_ack`. -/
def SourceNode.answered (node : SourceNode) (ps : PersistentState) (attempt : ℕ) :
    Except SyncError Unit → SourceNode
  | .ok () => { node with state := .ended (some 0), said := node.said ++ [.syncOk (ps.store.stateRoot E.shaHex)] }
  | .error e => node.failed args ps attempt (some e)

inductive SourceStep : SourceNode → SourceNode → Prop where
  | boot {node code ps disk} : node.state = .ended code →
      PersistentState.openState E.toExternals node.disk = .ok (ps, disk) →
      SourceStep node ⟨disk, .applying ps 0, node.said⟩
  | bootFails {node code e} : node.state = .ended code →
      PersistentState.openState E.toExternals node.disk = .err e →
      SourceStep node ⟨node.disk, .ended (some 2), node.said ++ [.bootFailed e]⟩
  | bootPanics {node code} : node.state = .ended code →
      PersistentState.openState E.toExternals node.disk = .panicked →
      SourceStep node { node with state := .ended (some 101) }
  | apply {node ps i ps' disk seq} : node.state = .applying ps i → i < args.apply.toNat →
      ps.apply E.toExternals node.disk (txAt i) .ok = (ps', disk, .ok seq) →
      SourceStep node ⟨disk, .applying ps' (i + 1), node.said⟩
  | applyFails {node ps i ps' disk e} (io : AppendIo) : node.state = .applying ps i → i < args.apply.toNat →
      Whole io → ps.apply E.toExternals node.disk (txAt i) io = (ps', disk, .error e) →
      SourceStep node ⟨disk, .ended (some 2), node.said ++ [.bootFailed e]⟩
  | checkpoint {node ps ps' disk} (walIo : AppendIo) (io : WriteIo) : node.state = .applying ps args.apply.toNat →
      ps.checkpoint E.toExternals node.disk 1 tipName walIo io = (ps', disk, .ok ()) →
      SourceStep node ⟨disk, .syncing ps' 0, node.said ++ [.applied (ps'.store.stateRoot E.shaHex)]⟩
  | checkpointFails {node ps ps' disk e} (walIo : AppendIo) (io : WriteIo) :
      node.state = .applying ps args.apply.toNat → Whole walIo →
      ps.checkpoint E.toExternals node.disk 1 tipName walIo io = (ps', disk, .err e) →
      SourceStep node ⟨disk, .ended (some 2), node.said ++ [.bootFailed e]⟩
  | noPeer {node ps} : node.state = .syncing ps 0 → args.peer = none →
      SourceStep node { node with state := .ended (some 1), said := node.said ++ [.noPeer] }
  | connectFails {node ps attempt} : node.state = .syncing ps attempt → args.peer ≠ none →
      SourceStep node (node.failed args ps attempt none)
  -- killed at rest, behind a record, or behind the marker with the snapshot written in part or not at all
  | kill {node} : SourceStep node { node with state := .ended none }
  | killInApply {node ps i} : node.state = .applying ps i → i < args.apply.toNat →
      SourceStep node ⟨(ps.apply E.toExternals node.disk (txAt i) .ok).2.1, .ended none, node.said⟩
  | killInCheckpoint {node ps} (io : WriteIo) : node.state = .applying ps args.apply.toNat →
      SourceStep node ⟨(ps.checkpoint E.toExternals node.disk 1 tipName .ok io).2.1, .ended none, node.said⟩

end

/-! ## The transactions once more -/

/-- The first transactions on top of a state. -/
def target (base : StateStore) (k : ℕ) : StateStore := base.applyAll ((List.range k).map txAt)

theorem applyAll_deterministicTxs (base : StateStore) (n : UInt64) :
    base.applyAll (deterministicTxs n) = target base n.toNat := rfl

theorem target_succ (base : StateStore) (k : ℕ) : target base (k + 1) = (target base k).apply (txAt k) := by
  rw [target, List.range_succ, List.map_append, StateStore.applyAll_append]
  rfl

/-- The key of a transaction has its value behind it, also where another transaction had the key. -/
theorem target_entry (base : StateStore) {i k : ℕ} (done : i < k) :
    (target base k).entries[s!"node/tx-{pad4 i}"]? = some s!"value-{pad4 i}" := by
  induction k with
  | zero => exact absurd done (Nat.not_lt_zero i)
  | succ k ih =>
      rw [target_succ, txAt, StateStore.apply, Std.ExtTreeMap.getElem?_insert]
      split
      · next same =>
          have keys := Std.LawfulEqCmp.eq_of_compare same
          have pads : pad4 k = pad4 i := (String.append_right_inj "node/tx-").mp keys
          rw [pads]
      · next other =>
          refine ih (Nat.lt_of_le_of_ne (Nat.le_of_lt_succ done) ?_)
          rintro rfl
          exact other Std.ReflCmp.compare_self

theorem target_again (base : StateStore) {i k : ℕ} (done : i < k) :
    (target base k).apply (txAt i) = target base k := by
  apply StateStore.ext
  rw [txAt, StateStore.apply]
  apply Std.ExtTreeMap.ext_getElem?
  intro key
  rw [Std.ExtTreeMap.getElem?_insert]
  split
  · next same =>
      rw [← Std.LawfulEqCmp.eq_of_compare same, target_entry base done]
  · rfl

/-! ## A source is a node -/

theorem checkpoint_disk {E : Externals} (ps : PersistentState) (disk : Disk) (height : UInt64) (tip : String)
    (io : WriteIo) : (ps.checkpoint E disk height tip .ok io).2.1 =
      ⟨some (disk.wal.getD [] ++ recordLine E.toWalExternals (ps.wal.nextRecord (ps.marker E height tip))),
        (saveSnapshotStore E ps.store height tip disk.snapshot io).1⟩ := by
  simp only [PersistentState.checkpoint, appendOp]
  cases (saveSnapshotStore E ps.store height tip disk.snapshot io).2 <;> rfl

theorem wal_of_reaches {E : Externals} {disk : Disk} {ps : PersistentState} {log : List WalOp}
    (run : Reaches E disk (some ps) log) : ∃ file, disk.wal = some file := by
  cases run with
  | openState before opened =>
      simp only [PersistentState.openState] at opened
      split at opened
      · cases opened
      · split at opened
        · cases opened
        · cases opened
        · split at opened
          · cases opened
          · cases opened
            exact ⟨_, rfl⟩
  | apply tx before => exact ⟨_, rfl⟩
  | checkpoint height tip before => exact ⟨_, congrArg Disk.wal (checkpoint_disk _ _ height tip .ok)⟩

/-- A call that leaves whole records leaves a disk that a crash leaves too. -/
theorem apply_leaves {E : Externals} {disk : Disk} (ps : PersistentState) (tx : Tx) {io : AppendIo}
    (file : ∃ file, disk.wal = some file) (whole : Whole io) :
    ∃ crash, (ps.apply E disk tx io).2.1 = ps.crashDisk E disk crash ∧
      ∀ op ∈ ps.crashOps E crash, op = .apply tx := by
  obtain ⟨wal, snapshot⟩ := disk
  obtain ⟨file, rfl⟩ := file
  cases io with
  | ok | syncFails => exact ⟨.afterRecord tx, rfl, by simp [PersistentState.crashOps]⟩
  | writeFails written =>
      obtain rfl : written = 0 := whole
      exact ⟨.atRest, by simp [PersistentState.crashDisk, PersistentState.apply, append, appendOp],
        by simp [PersistentState.crashOps]⟩

theorem checkpoint_leaves {E : Externals} {disk : Disk} (ps : PersistentState) (height : UInt64) (tip : String)
    (walIo : AppendIo) (io : WriteIo) (file : ∃ file, disk.wal = some file) (whole : Whole walIo) :
    ∃ crash, (ps.checkpoint E disk height tip walIo io).2.1 = ps.crashDisk E disk crash ∧
      ∀ op ∈ ps.crashOps E crash, op = ps.marker E height tip := by
  obtain ⟨wal, snapshot⟩ := disk
  obtain ⟨file, rfl⟩ := file
  cases walIo with
  | syncFails => exact ⟨.afterMarker height tip, rfl, by simp [PersistentState.crashOps]⟩
  | writeFails written =>
      obtain rfl : written = 0 := whole
      exact ⟨.atRest, by simp [PersistentState.crashDisk, PersistentState.checkpoint, appendOp],
        by simp [PersistentState.crashOps]⟩
  | ok =>
      cases io with
      | createFails => exact ⟨.afterMarker height tip, rfl, by simp [PersistentState.crashOps]⟩
      | writeFails written =>
          exact ⟨.duringSnapshot height tip written, rfl, by simp [PersistentState.crashOps]⟩
      | ok =>
          -- a complete write is one that dies behind its last byte
          refine ⟨.duringSnapshot height tip (snapshotBytes E ps.store height tip).length, ?_,
            by simp [PersistentState.crashOps]⟩
          have written : (saveSnapshotStore E ps.store height tip snapshot .ok).1 =
              some (snapshotBytes E ps.store height tip) := by
            rw [saveSnapshotStore]
            split
            · split <;> rfl
            · rfl
            · rfl
          rw [PersistentState.crashDisk, checkpoint_disk, checkpoint_disk, written, saveSnapshotStore,
            List.take_length]

theorem checkpoint_done {E : Externals} {ps ps' : PersistentState} {disk disk' : Disk} {height : UInt64}
    {tip : String} {walIo : AppendIo} {io : WriteIo}
    (done : ps.checkpoint E disk height tip walIo io = (ps', disk', .ok ())) : walIo = .ok ∧ io = .ok := by
  cases walIo with
  | syncFails | writeFails => cases done
  | ok =>
      cases io with
      | createFails | writeFails => cases done
      | ok => exact ⟨rfl, rfl⟩

theorem logStates_concat {log : List WalOp} {op : WalOp} {s : StateStore} (member : s ∈ logStates (log ++ [op])) :
    s ∈ logStates log ∨ s = applyOps .new (log ++ [op]) := by
  obtain ⟨before, after, split, rfl⟩ := member
  rcases List.eq_nil_or_concat after with rfl | ⟨rest, last, rfl⟩
  · rw [List.append_nil] at split
    rw [applyOps_eq, split]
    exact .inr rfl
  · refine .inl ⟨before, rest, ?_, rfl⟩
    rw [List.map_append, List.concat_eq_append, ← List.append_assoc] at split
    exact (List.append_inj' split rfl).1

section Source
variable {ι : Type} {E : SyncdExternals} {args : Args ι} {n : ℕ} {log₀ : List WalOp}

/-- The states a source goes through on a disk with a log. -/
def sourceStates (log₀ : List WalOp) (n : ℕ) : Set StateStore :=
  logStates log₀ ∪ {s | ∃ k ≤ n, s = target (applyOps .new log₀) k}

/-- The disk and the process are those of a node that has got so far. -/
structure At (E : SyncdExternals) (log₀ : List WalOp) (n : ℕ) (disk : Disk) (process : Option PersistentState)
    (k : ℕ) (log : List WalOp) : Prop where
  reaches : Reaches E.toExternals disk process log
  within : k ≤ n
  store : applyOps .new log = target (applyOps .new log₀) k
  states : logStates log ⊆ sourceStates log₀ n

theorem At.log {disk : Disk} {process : Option PersistentState} {k : ℕ} {log : List WalOp}
    (stands : At E log₀ n disk process k log) {disk' : Disk} {process' : Option PersistentState} {op : WalOp} {k' : ℕ}
    (reaches : Reaches E.toExternals disk' process' (log ++ [op])) (within : k' ≤ n)
    (store : applyOps .new (log ++ [op]) = target (applyOps .new log₀) k') :
    At E log₀ n disk' process' k' (log ++ [op]) := by
  refine ⟨reaches, within, store, ?_⟩
  intro s member
  obtain old | rfl := logStates_concat member
  · exact stands.states old
  · exact .inr ⟨k', within, store⟩

theorem At.tx {disk : Disk} {process : Option PersistentState} {k : ℕ} {log : List WalOp}
    (stands : At E log₀ n disk process k log) {i : ℕ} (reached : i ≤ k) (inside : i < n) {disk' : Disk}
    {process' : Option PersistentState} (reaches : Reaches E.toExternals disk' process' (log ++ [.apply (txAt i)])) :
    ∃ k', i < k' ∧ k ≤ k' ∧ At E log₀ n disk' process' k' (log ++ [.apply (txAt i)]) := by
  have logged : applyOps .new (log ++ [.apply (txAt i)]) = (target (applyOps .new log₀) k).apply (txAt i) := by
    rw [applyOps_append, stands.store]
    rfl
  obtain rfl | done := Nat.eq_or_lt_of_le reached
  · refine ⟨i + 1, Nat.lt_succ_self i, Nat.le_succ i, stands.log reaches inside ?_⟩
    rw [logged, target_succ]
  · refine ⟨k, done, le_rfl, stands.log reaches stands.within ?_⟩
    rw [logged, target_again _ done]

theorem At.mark {disk : Disk} {process : Option PersistentState} {k : ℕ} {log : List WalOp}
    (stands : At E log₀ n disk process k log) {disk' : Disk} {process' : Option PersistentState}
    {ps : PersistentState} {height : UInt64} {tip : String}
    (reaches : Reaches E.toExternals disk' process' (log ++ [ps.marker E.toExternals height tip])) :
    At E log₀ n disk' process' k (log ++ [ps.marker E.toExternals height tip]) := by
  refine stands.log reaches stands.within ?_
  rw [applyOps_append, stands.store]
  rfl

def SourceState.process : SourceState → Option PersistentState
  | .ended _ => none
  | .applying ps _ | .syncing ps _ | .awaiting ps _ _ => some ps

/-- How far the log is where `main` stands. -/
def SourceState.Reached (n k : ℕ) : SourceState → Prop
  | .ended _ => True
  | .applying _ i => i ≤ k
  | .syncing _ _ | .awaiting _ _ _ => k = n

/-- What every step of a source keeps. -/
structure SourceOk (E : SyncdExternals) (log₀ : List WalOp) (n : ℕ) (node : SourceNode) (k : ℕ) (log : List WalOp) :
    Prop where
  stands : At E log₀ n node.disk node.state.process k log
  place : node.state.Reached n k
  roots : ∀ root, .applied root ∈ node.said ∨ .syncOk root ∈ node.said →
    root = (target (applyOps .new log₀) n).stateRoot E.shaHex ∧ k = n

section
variable (format : E.record.LineFormat) (trip : E.snapshot.RoundTrips) (prefixes : E.snapshot.RejectsPrefixes)
  (empty : E.snapshot.RejectsEmpty) (inj : Set.InjOn (StateStore.stateRoot E.shaHex) (sourceStates log₀ n))
include format trip prefixes empty inj

theorem At.sound {disk : Disk} {process : Option PersistentState} {k : ℕ} {log : List WalOp}
    (stands : At E log₀ n disk process k log) : Sound E.toExternals disk log ∧
      ∀ ps ∈ process, Follows E.toExternals ps log ∧ ps.store = target (applyOps .new log₀) k := by
  rw [← stands.store]
  exact stands.reaches.sound trip prefixes empty format (inj.mono stands.states)

omit format trip prefixes empty inj in
/-- A crash in a call of the source leaves a node that has got as far or further. -/
theorem At.crash {disk : Disk} {ps : PersistentState} {k : ℕ} {log : List WalOp}
    (stands : At E log₀ n disk (some ps) k log) (crash : Crash)
    (logs : ∀ op ∈ ps.crashOps E.toExternals crash,
      (∃ i ≤ k, i < n ∧ op = .apply (txAt i)) ∨ ∃ height tip, op = ps.marker E.toExternals height tip) :
    ∃ k' log', k ≤ k' ∧ At E log₀ n (ps.crashDisk E.toExternals disk crash) none k' log' := by
  have reaches := stands.reaches.crash crash
  have short : ps.crashOps E.toExternals crash = [] ∨ ∃ op, ps.crashOps E.toExternals crash = [op] := by
    cases crash with
    | atRest => exact .inl rfl
    | afterRecord | afterMarker | duringSnapshot => exact .inr ⟨_, rfl⟩
  obtain nothing | ⟨op, one⟩ := short
  · rw [nothing, List.append_nil] at reaches
    exact ⟨k, log, le_rfl, reaches, stands.within, stands.store, stands.states⟩
  · rw [one] at reaches logs
    obtain ⟨i, reached, inside, rfl⟩ | ⟨height, tip, rfl⟩ := logs op (.head _)
    · obtain ⟨k', -, further, there⟩ := stands.tx reached inside reaches
      exact ⟨k', _, further, there⟩
    · exact ⟨k, _, le_rfl, stands.mark reaches⟩

omit format trip prefixes empty inj in
theorem At.killed {disk : Disk} {process : Option PersistentState} {k : ℕ} {log : List WalOp}
    (stands : At E log₀ n disk process k log) : At E log₀ n disk none k log := by
  cases process with
  | none => exact stands
  | some ps =>
      have reaches := stands.reaches.crash .atRest
      rw [PersistentState.crashOps, List.append_nil] at reaches
      exact ⟨reaches, stands.within, stands.store, stands.states⟩

omit format trip prefixes empty inj in
theorem SourceOk.ended {node : SourceNode} {k : ℕ} {log : List WalOp} (ok : SourceOk E log₀ n node k log)
    {disk : Disk} {k' : ℕ} {log' : List WalOp} (further : k ≤ k') (stands : At E log₀ n disk none k' log')
    (code : Option ℕ) {said : List Line} (same : ∀ root, .applied root ∈ said ∨ .syncOk root ∈ said →
      .applied root ∈ node.said ∨ .syncOk root ∈ node.said) :
    SourceOk E log₀ n ⟨disk, .ended code, said⟩ k' log' := by
  refine ⟨stands, trivial, fun root heard => ?_⟩
  obtain ⟨known, rfl⟩ := ok.roots root (same root heard)
  exact ⟨known, Nat.le_antisymm stands.within further⟩

omit format trip prefixes empty inj in
theorem said_quiet {said : List Line} {line : Line} (plain : ∀ root, line ≠ .applied root ∧ line ≠ .syncOk root)
    (root : String) (heard : .applied root ∈ said ++ [line] ∨ .syncOk root ∈ said ++ [line]) :
    .applied root ∈ said ∨ .syncOk root ∈ said := by
  simpa [Ne.symm (plain root).1, Ne.symm (plain root).2] using heard

omit format trip prefixes empty inj in
theorem SourceOk.failed {node : SourceNode} {k : ℕ} {log : List WalOp} (ok : SourceOk E log₀ n node k log)
    {ps : PersistentState} (running : node.state.process = some ps) (complete : k = n) (attempt : ℕ)
    (e : Option SyncError) : SourceOk E log₀ n (node.failed args ps attempt e) k log := by
  have stands := ok.stands
  rw [running] at stands
  rw [SourceNode.failed]
  split
  · exact ⟨stands, complete, fun root heard => ok.roots root (said_quiet (by simp) root heard)⟩
  · exact ok.ended le_rfl stands.killed _ (said_quiet (by simp))

/-- Where a source stands behind an op of its run, and what it has said. -/
theorem SourceOk.step (asked : args.apply.toNat = n) {node : SourceNode} {k : ℕ} {log : List WalOp}
    (ok : SourceOk E log₀ n node k log) {node' : SourceNode} (step : SourceStep E args node node') :
    ∃ k' log', SourceOk E log₀ n node' k' log' := by
  subst asked
  cases step with
  | boot ended opened =>
      have stands := ok.stands
      rw [ended] at stands
      exact ⟨k, log, ⟨⟨.openState stands.reaches opened, stands.within, stands.store, stands.states⟩,
        Nat.zero_le k, ok.roots⟩⟩
  | bootFails ended opened => exact ⟨k, log, ok.ended le_rfl ok.stands.killed _ (said_quiet (by simp))⟩
  | bootPanics ended opened => exact ⟨k, log, ok.ended le_rfl ok.stands.killed _ fun _ heard => heard⟩
  | @apply ps i ps' disk seq applying inside done =>
      have stands := ok.stands
      have reached := ok.place
      rw [applying] at stands reached
      have reaches := stands.reaches.apply (txAt i)
      rw [done] at reaches
      obtain ⟨k', past, further, there⟩ := stands.tx reached inside reaches
      refine ⟨k', _, ⟨there, past, fun root heard => ?_⟩⟩
      obtain ⟨known, rfl⟩ := ok.roots root heard
      exact ⟨known, Nat.le_antisymm there.within further⟩
  | @applyFails ps i ps' disk e io applying inside whole failed =>
      have stands := ok.stands
      have reached := ok.place
      rw [applying] at stands reached
      obtain ⟨crash, left, logs⟩ := apply_leaves ps (txAt i) (wal_of_reaches stands.reaches) whole
      rw [failed] at left
      obtain ⟨k', log', further, there⟩ := stands.crash crash fun op member =>
        .inl ⟨i, reached, inside, logs op member⟩
      rw [← left] at there
      exact ⟨k', log', ok.ended further there _ (said_quiet (by simp))⟩
  | @checkpoint ps ps' disk walIo io applying done =>
      obtain ⟨rfl, rfl⟩ := checkpoint_done done
      have stands := ok.stands
      have reached := ok.place
      rw [applying] at stands reached
      obtain rfl : k = args.apply.toNat := Nat.le_antisymm stands.within reached
      have reaches := stands.reaches.checkpoint 1 tipName
      rw [done] at reaches
      have there := stands.mark reaches
      have whole := (there.sound format trip prefixes empty inj).2 ps' rfl
      refine ⟨_, _, ⟨there, rfl, fun root heard => ⟨?_, rfl⟩⟩⟩
      have either : root = ps'.store.stateRoot E.shaHex ∨ .applied root ∈ node.said ∨ .syncOk root ∈ node.said := by
        simp only [List.mem_append, List.mem_singleton, Line.applied.injEq, reduceCtorEq, or_false] at heard
        tauto
      obtain rfl | before := either
      · rw [whole.2]
      · exact (ok.roots root before).1
  | @checkpointFails ps ps' disk e walIo io applying whole failed =>
      have stands := ok.stands
      rw [applying] at stands
      obtain ⟨crash, left, logs⟩ := checkpoint_leaves ps 1 tipName walIo io (wal_of_reaches stands.reaches) whole
      rw [failed] at left
      obtain ⟨k', log', further, there⟩ := stands.crash crash fun op member => .inr ⟨1, tipName, logs op member⟩
      rw [← left] at there
      exact ⟨k', log', ok.ended further there _ (said_quiet (by simp))⟩
  | noPeer syncing nobody => exact ⟨k, log, ok.ended le_rfl ok.stands.killed _ (said_quiet (by simp))⟩
  | connectFails syncing somebody =>
      have complete := ok.place
      rw [syncing] at complete
      exact ⟨k, log, ok.failed (by rw [syncing]; rfl) complete _ none⟩
  | kill => exact ⟨k, log, ok.ended le_rfl ok.stands.killed _ fun _ heard => heard⟩
  | @killInApply ps i applying inside =>
      have stands := ok.stands
      have reached := ok.place
      rw [applying] at stands reached
      obtain ⟨k', log', further, there⟩ := stands.crash (.afterRecord (txAt i)) fun op member =>
        .inl ⟨i, reached, inside, List.mem_singleton.mp member⟩
      exact ⟨k', log', ok.ended further there _ fun _ heard => heard⟩
  | @killInCheckpoint ps io applying =>
      have stands := ok.stands
      rw [applying] at stands
      have file := wal_of_reaches stands.reaches
      obtain ⟨crash, left, logs⟩ := checkpoint_leaves ps 1 tipName .ok io file trivial
      obtain ⟨k', log', further, there⟩ := stands.crash crash fun op member => .inr ⟨1, tipName, logs op member⟩
      rw [← left] at there
      exact ⟨k', log', ok.ended further there _ fun _ heard => heard⟩

end
end Source

/-! ## Undisturbed -/

/-- The snapshot of a state and its ack fit into frames. -/
structure Fits (E : SyncdExternals) (store : StateStore) : Prop where
  snapshot : (E.sync.toVec (snapshotFromStore E.toExternals store 1 tipName)).length ≤ maxFrame
  ack : (E.ack.toVec ⟨store.stateRoot E.shaHex⟩).length ≤ maxFrame

open Relation (ReflTransGen)

section Source
variable {ι : Type} {E : SyncdExternals} {args : Args ι} {log₀ : List WalOp}

theorem SourceStep.applyAll (disk : Disk) (ps : PersistentState) (said : List Line) {i : ℕ}
    (within : i ≤ args.apply.toNat) : ∃ disk' ps', ReflTransGen (SourceStep E args) ⟨disk, .applying ps i, said⟩
      ⟨disk', .applying ps' args.apply.toNat, said⟩ := by
  obtain ⟨left, total⟩ := Nat.exists_eq_add_of_le within
  induction left generalizing disk ps i with
  | zero => exact ⟨disk, ps, total ▸ .refl⟩
  | succ left ih =>
      have inside : i < args.apply.toNat := by omega
      obtain ⟨disk', ps', rest⟩ := ih (ps.apply E.toExternals disk (txAt i) .ok).2.1
        (ps.apply E.toExternals disk (txAt i) .ok).1 inside (by omega)
      exact ⟨disk', ps', .head (.apply rfl inside rfl) rest⟩

section
variable (format : E.record.LineFormat) (trip : E.snapshot.RoundTrips) (prefixes : E.snapshot.RejectsPrefixes)
  (empty : E.snapshot.RejectsEmpty)
  (inj : Set.InjOn (StateStore.stateRoot E.shaHex) (sourceStates log₀ args.apply.toNat))
include format trip prefixes empty inj

theorem SourceOk.leads {node node' : SourceNode} {k : ℕ} {log : List WalOp}
    (ok : SourceOk E log₀ args.apply.toNat node k log) (steps : ReflTransGen (SourceStep E args) node node') :
    ∃ k' log', SourceOk E log₀ args.apply.toNat node' k' log' := by
  induction steps with
  | refl => exact ⟨k, log, ok⟩
  | tail _ step ih =>
      obtain ⟨k', log', there⟩ := ih
      exact there.step format trip prefixes empty inj rfl step

/-- From wherever it is, a source can be killed and started again, and gets to its peer. -/
theorem SourceOk.ready {node : SourceNode} {k : ℕ} {log : List WalOp}
    (ok : SourceOk E log₀ args.apply.toNat node k log) : ∃ disk ps said,
      ReflTransGen (SourceStep E args) node ⟨disk, .syncing ps 0, said⟩ ∧
      ps.store = target (applyOps .new log₀) args.apply.toNat := by
  obtain ⟨sound, -⟩ := ok.stands.sound format trip prefixes empty inj
  have opened := openState_eq format sound.written sound.calm
  have killed : SourceStep E args node ⟨node.disk, .ended none, node.said⟩ := .kill
  have booted : SourceStep E args ⟨node.disk, .ended none, node.said⟩ _ := .boot rfl opened
  obtain ⟨disk, ps, applied⟩ := SourceStep.applyAll _ _ node.said (Nat.zero_le args.apply.toNat)
  have saved : SourceStep E args ⟨disk, .applying ps args.apply.toNat, node.said⟩ _ :=
    .checkpoint .ok .ok rfl (eq_of_result (checkpoint_ok trip ps disk 1 tipName))
  have steps := ReflTransGen.head killed (.head booted (applied.tail saved))
  obtain ⟨k', log', there⟩ := ok.leads format trip prefixes empty inj steps
  refine ⟨_, _, _, steps, ?_⟩
  rw [((there.stands.sound format trip prefixes empty inj).2 _ rfl).2, there.place]

end
end Source

end KaiOs.Syncd
