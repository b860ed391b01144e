import KaiOs.State.WalDurability
import KaiOs.Syncd.SyncedRuns

/-! `persist_verified` when it fails: the store is replaced before anything is on disk, and of the
checkpoint a marker or a part of the snapshot file may be left behind. -/
namespace KaiOs.Syncd
open Utf8 Lines WriteAheadLog PersistentState

section
variable (E : Externals)

/-- The store that `open` would recover from the disk. -/
def recovered (disk : Disk) : Option StateStore :=
  match openState E disk with
  | .ok (ps, _) => some ps.store
  | _ => none

/-- The ops a replay reads from the log file; none where it fails. -/
def logged (wal : Option Bytes) : Option (List WalOp) := (readOps E wal).toOption

/-- What recovery makes of these ops and the snapshot file. -/
def rebuilt (ops : List WalOp) (snapshot : Option Bytes) : Option StateStore :=
  match recoveryBase E ops snapshot with
  | .ok (base, appliedFrom) => some (applyOps base (ops.drop appliedFrom))
  | _ => none

/-- Recovery behind a new marker: the snapshot file if it holds a store of that root, else all
logged transactions. -/
def behindMarker (log : List WalOp) (root : String) (snapshot : Option Bytes) : Option StateStore :=
  match loadSnapshotStore E snapshot with
  | .panicked => none
  | .err _ => some (applyOps .new log)
  | .ok stored => some (if stored.stateRoot E.shaHex = root then stored else applyOps .new log)

/-- The marker of the checkpoint that persists the snapshot. -/
def SyncSnapshot.marker (snap : SyncSnapshot) : WalOp :=
  .checkpoint snap.height snap.tipBlockHash snap.stateRoot

/-- The bytes of a record that reach the log file. -/
def reached (r : WalRecord) : AppendIo → Bytes
  | .writeFails written => (recordLine E.toWalExternals r).take written
  | .ok | .syncFails => recordLine E.toWalExternals r

def logLeft (ps : PersistentState) (disk : Disk) (snap : SyncSnapshot) (walIo : AppendIo) : Option Bytes :=
  some (disk.wal.getD [] ++ reached E (ps.wal.nextRecord snap.marker) walIo)

/-- The snapshot file that the call is to write. -/
def SyncSnapshot.file (snap : SyncSnapshot) (store : StateStore) : Bytes :=
  snapshotBytes E store snap.height snap.tipBlockHash

def snapshotLeft (disk : Disk) (snap : SyncSnapshot) (store : StateStore) : AppendIo → WriteIo → Option Bytes
  | .ok, .writeFails written => some ((snap.file E store).take written)
  | .ok, .ok => some (snap.file E store)
  | _, _ => disk.snapshot

/-- The marker's record without its newline. -/
def markerText (ps : PersistentState) (snap : SyncSnapshot) : Bytes :=
  utf8 (E.record.text (ps.wal.nextRecord snap.marker))

/-- The bytes of it that reach the log file. -/
def markerBytes (ps : PersistentState) (snap : SyncSnapshot) : AppendIo → Bytes
  | .writeFails written => (markerText E ps snap).take written
  | .ok | .syncFails => markerText E ps snap

/-- The line of the log that these bytes continue, as text. -/
def lastLine (ps : PersistentState) (disk : Disk) (snap : SyncSnapshot) (walIo : AppendIo) : Option String :=
  decode (tail (disk.wal.getD []) ++ markerBytes E ps snap walIo)

/-- The complete lines of the log file are records of these ops. -/
def Settled (disk : Disk) (log : List WalOp) : Prop :=
  Whole E.toWalExternals (lines (closed (disk.wal.getD []))) (genesis.chain E.toWalExternals log)

/-- A failed call leaves the store and what would be recovered as they were. -/
def Atomic (ps : PersistentState) (disk : Disk) (snap : SyncSnapshot) (walIo : AppendIo) (io : WriteIo) : Prop :=
  ∀ e, (persistVerified E ps disk snap walIo io).2.2 = .err e →
    (persistVerified E ps disk snap walIo io).1.store = ps.store ∧
      recovered E (persistVerified E ps disk snap walIo io).2.1 = recovered E disk

/-- What becomes of the marker in the log: its bytes make it unreadable, are passed over as a torn line,
or are read as an op. -/
inductive Fate where
  | lost
  | torn (log : List WalOp)
  | read (log : List WalOp) (op : WalOp)

def Fate.ops : Fate → Option (List WalOp)
  | .lost => none
  | .torn log => some log
  | .read log op => some (log ++ [op])

/-- By the log file before the call and the bytes that reach it. -/
inductive Meets (ps : PersistentState) (disk : Disk) (snap : SyncSnapshot) (walIo : AppendIo) : Fate → Prop where
  | torn {log line} (settled : Settled E disk log) (text : lastLine E ps disk snap walIo = some line)
      (broken : E.record.parse line = none) : Meets ps disk snap walIo (.torn log)
  | read {log line op} (settled : Settled E disk log) (text : lastLine E ps disk snap walIo = some line)
      (parsed : E.record.parse line = some ((genesis.advance E.toWalExternals log).nextRecord op)) :
      Meets ps disk snap walIo (.read log op)
  | lost (unread : ∀ log line, Settled E disk log → lastLine E ps disk snap walIo = some line →
      ∃ r, E.record.parse line = some r ∧ r ≠ (genesis.advance E.toWalExternals log).nextRecord r.op) :
      Meets ps disk snap walIo .lost

/-- The last marker of a log names this root. -/
def Marked (log : List WalOp) (root : String) : Prop := ∃ height tip, lastCheckpoint log = some (height, tip, root)

/-- When a failed call with a verified snapshot changes nothing that could be recovered, by the files
before the call and by how far it came. -/
inductive Spared (ps : PersistentState) (disk : Disk) (snap : SyncSnapshot) (store : StateStore) :
    AppendIo → WriteIo → Prop where
  /-- Nothing of the marker is written. -/
  | unwritten {io} : Spared ps disk snap store (.writeFails 0) io
  /-- The log becomes unreadable, and nothing could be recovered before. -/
  | lost {walIo io} (meets : Meets E ps disk snap walIo .lost) (nothing : recovered E disk = none) :
      Spared ps disk snap store walIo io
  /-- The marker is read, and the snapshot file holds a store of its root: what was recovered. -/
  | stored {walIo io log s} (untouched : walIo = .ok → io = .createFails)
      (meets : Meets E ps disk snap walIo (.read log snap.marker)) (loads : loadSnapshotStore E disk.snapshot = .ok s)
      (root : s.stateRoot E.shaHex = snap.stateRoot) (same : recovered E disk = some s) :
      Spared ps disk snap store walIo io
  /-- The marker is read, the snapshot file holds no such store, and what was recovered is what the logged
  transactions give from genesis on. -/
  | unstored {walIo io log} (untouched : walIo = .ok → io = .createFails)
      (meets : Meets E ps disk snap walIo (.read log snap.marker))
      (calm : loadSnapshotStore E disk.snapshot ≠ .panicked)
      (other : ∀ s, loadSnapshotStore E disk.snapshot = .ok s → s.stateRoot E.shaHex ≠ snap.stateRoot)
      (alone : recovered E disk = some (applyOps .new log)) : Spared ps disk snap store walIo io
  /-- The marker is read, the snapshot file makes `open` panic, and it did so before. -/
  | stuck {walIo io log} (untouched : walIo = .ok → io = .createFails)
      (meets : Meets E ps disk snap walIo (.read log snap.marker))
      (panics : loadSnapshotStore E disk.snapshot = .panicked) (nothing : recovered E disk = none) :
      Spared ps disk snap store walIo io
  /-- The marker is read, the new snapshot file is cut off, and what was recovered is what the logged
  transactions give from genesis on. -/
  | cut {written log} (short : written < (snap.file E store).length)
      (meets : Meets E ps disk snap .ok (.read log snap.marker))
      (alone : recovered E disk = some (applyOps .new log)) : Spared ps disk snap store .ok (.writeFails written)
  /-- The marker is read, the new snapshot file is complete, and what was recovered is the store in it. -/
  | saved {written log} (full : (snap.file E store).length ≤ written)
      (meets : Meets E ps disk snap .ok (.read log snap.marker)) (same : recovered E disk = some store) :
      Spared ps disk snap store .ok (.writeFails written)
  /-- No marker is read, the snapshot file is untouched, and what is read gave what was recovered. -/
  | unread {walIo io fate log} (untouched : walIo = .ok → io = .createFails)
      (meets : Meets E ps disk snap walIo fate) (ops : fate.ops = some log)
      (same : recovered E disk = rebuilt E log disk.snapshot) (other : ∀ front, fate ≠ .read front snap.marker) :
      Spared ps disk snap store walIo io
  /-- No marker is read, the new snapshot file is complete and goes with the last marker there is, and what was
  recovered is the store in it with the transactions behind that marker. -/
  | adopted {written fate log} (full : (snap.file E store).length ≤ written) (meets : Meets E ps disk snap .ok fate)
      (ops : fate.ops = some log) (last : Marked log snap.stateRoot)
      (same : recovered E disk = some (applyOps store (log.drop (lastCheckpointIndex log + 1))))
      (other : ∀ front, fate ≠ .read front snap.marker) : Spared ps disk snap store .ok (.writeFails written)
  /-- No marker is read, the new snapshot file is cut off or goes with no marker, and what was recovered is what
  the logged transactions give from genesis on. -/
  | dropped {written fate log} (missed : ¬ ((snap.file E store).length ≤ written ∧ Marked log snap.stateRoot))
      (meets : Meets E ps disk snap .ok fate) (ops : fate.ops = some log)
      (alone : recovered E disk = some (applyOps .new log))
      (other : ∀ front, fate ≠ .read front snap.marker) : Spared ps disk snap store .ok (.writeFails written)

end

variable {E : Externals}

theorem recovered_eq (disk : Disk) :
    recovered E disk = (logged E disk.wal).bind fun ops => rebuilt E ops disk.snapshot := by
  rw [recovered, openState, logged]
  cases read : readOps E disk.wal with
  | error e => rfl
  | ok ops =>
      obtain ⟨log, file, opened⟩ := openLog_of_readOps read
      simp only [Except.toOption, Option.bind_some, rebuilt, opened]
      cases recoveryBase E ops disk.snapshot <;> rfl

theorem rebuilt_marked (log : List WalOp) (height : UInt64) (tip root : String) (snapshot : Option Bytes) :
    rebuilt E (log ++ [.checkpoint height tip root]) snapshot = behindMarker E log root snapshot := by
  have clear : ∀ op ∈ ([] : List WalOp), op.checkpoint? = none := nofun
  obtain ⟨last, index⟩ := lastCheckpoint_some log height tip root clear
  have all : applyOps .new ((log ++ [WalOp.checkpoint height tip root]).drop 0) = applyOps .new log := by
    rw [List.drop_zero, applyOps_append]
    rfl
  have suffix : (log ++ [WalOp.checkpoint height tip root]).drop (log.length + 1) = [] := by
    rw [List.drop_eq_nil_iff, List.length_append, List.length_singleton]
  rw [rebuilt, recoveryBase, last, behindMarker]
  cases loadSnapshotStore E snapshot with
  | panicked => rfl
  | err e => exact congrArg some all
  | ok stored =>
      dsimp only
      by_cases hit : stored.stateRoot E.shaHex = root
      · rw [if_pos hit, if_pos hit, index]
        dsimp only
        rw [suffix]
        rfl
      · rw [if_neg hit, if_neg hit]
        exact congrArg some all

section Left
variable (trip : E.snapshot.RoundTrips)
include trip

theorem persist_left (ps : PersistentState) (disk : Disk) {snap : SyncSnapshot} {store : StateStore}
    (verified : verifySnapshot E snap = .ok store) (walIo : AppendIo) (io : WriteIo) :
    (persistVerified E ps disk snap walIo io).1.store = store ∧
      (persistVerified E ps disk snap walIo io).2.1 =
        ⟨logLeft E ps disk snap walIo, snapshotLeft E disk snap store walIo io⟩ ∧
      ((∃ e, (persistVerified E ps disk snap walIo io).2.2 = .err e) ↔ ¬ (walIo = .ok ∧ io = .ok)) := by
  have root := (verifySnapshot_ok.mp verified).2
  simp only [persistVerified, verified, checkpoint, root, logLeft, SyncSnapshot.marker]
  cases walIo with
  | writeFails n => exact ⟨rfl, rfl, iff_of_true ⟨_, rfl⟩ (by simp)⟩
  | syncFails => exact ⟨rfl, rfl, iff_of_true ⟨_, rfl⟩ (by simp)⟩
  | ok =>
      cases io with
      | ok =>
          simp only [appendOp, save_ok trip]
          exact ⟨trivial, rfl, iff_of_false (by simp) (not_not.mpr ⟨trivial, trivial⟩)⟩
      | createFails => exact ⟨rfl, rfl, iff_of_true ⟨_, rfl⟩ (by simp)⟩
      | writeFails n => exact ⟨rfl, rfl, iff_of_true ⟨_, rfl⟩ (by simp)⟩

variable (prefixes : E.snapshot.RejectsPrefixes) (empty : E.snapshot.RejectsEmpty)
include prefixes empty

/-- Behind a marker a cut snapshot file sends recovery back to the logged transactions. -/
theorem behindMarker_cut (log : List WalOp) (store : StateStore) (height : UInt64) (tip : String) (written : ℕ) :
    behindMarker E log (store.stateRoot E.shaHex) (some ((snapshotBytes E store height tip).take written)) =
      some (if (snapshotBytes E store height tip).length ≤ written then store else applyOps .new log) := by
  rw [behindMarker]
  by_cases short : written < (snapshotBytes E store height tip).length
  · obtain ⟨e, refused⟩ := load_cut prefixes empty short
    rw [refused, if_neg (Nat.not_le_of_lt short)]
  · rw [List.take_of_length_le (Nat.le_of_not_lt short), load_saved trip, if_pos (Nat.le_of_not_lt short)]
    dsimp only
    rw [if_pos rfl]

end Left

theorem snapshotLeft_untouched {disk : Disk} {snap : SyncSnapshot} {store : StateStore} {walIo : AppendIo}
    {io : WriteIo} (untouched : walIo = .ok → io = .createFails) :
    snapshotLeft E disk snap store walIo io = disk.snapshot := by
  cases walIo with
  | writeFails | syncFails => rfl
  | ok =>
      rw [untouched rfl]
      rfl

theorem logged_iff {file : Bytes} {ops : List WalOp} : logged E (some file) = some ops ↔
    Reads E.toWalExternals (lines file) (genesis.chain E.toWalExternals ops) := by
  rw [← replay_ok_iff, logged, readOps]
  cases replay E.toWalExternals (some file) with
  | error e => simp only [Except.toOption, reduceCtorEq, exists_false]
  | ok out =>
      obtain ⟨ops', seq, tip⟩ := out
      constructor
      · intro same
        cases same
        exact ⟨seq, tip, rfl⟩
      · rintro ⟨_, _, same⟩
        cases same
        rfl

theorem logged_eq_none {file : Bytes}
    (unread : ∀ ops, ¬ Reads E.toWalExternals (lines file) (genesis.chain E.toWalExternals ops)) :
    logged E (some file) = none := by
  cases found : logged E (some file) with
  | none => rfl
  | some ops => exact absurd (logged_iff.mp found) (unread _)

section Read
variable {ps : PersistentState} {disk : Disk} {snap : SyncSnapshot} {walIo : AppendIo} (format : E.record.LineFormat)

theorem logged_written_nothing (ps : PersistentState) (disk : Disk) (snap : SyncSnapshot) :
    logged E (logLeft E ps disk snap (.writeFails 0)) = logged E disk.wal := by
  rw [logLeft, reached, List.take_zero, List.append_nil]
  cases disk.wal <;> rfl

include format

theorem lines_logLeft (ps : PersistentState) (disk : Disk) (snap : SyncSnapshot)
    (some_bytes : walIo ≠ .writeFails 0) : ∃ file, logLeft E ps disk snap walIo = some file ∧
      lines file = lines (closed (disk.wal.getD [])) ++ [lastLine E ps disk snap walIo] := by
  refine ⟨_, rfl, ?_⟩
  have whole := lines_recordLine format (disk.wal.getD []) (ps.wal.nextRecord snap.marker) []
  rw [List.append_nil, lines_nil] at whole
  cases walIo with
  | ok | syncFails => exact whole
  | writeFails n =>
      by_cases within : n ≤ (markerText E ps snap).length
      · have begun : n ≠ 0 := fun zero => some_bytes (congrArg AppendIo.writeFails zero)
        have full : (markerText E ps snap).take n ≠ [] := by
          rw [Ne, List.take_eq_nil_iff, not_or]
          exact ⟨begun, List.ne_nil_of_length_pos (text_length_pos format _)⟩
        have clean : (10 : UInt8) ∉ tail (disk.wal.getD []) ++ (markerText E ps snap).take n := by
          rw [List.mem_append]
          exact not_or_intro (tail_clean _) fun member =>
            format.oneLine _ ((newline_mem_utf8 _).mp (List.mem_of_mem_take member))
        have cut : reached E (ps.wal.nextRecord snap.marker) (.writeFails n) = (markerText E ps snap).take n :=
          List.take_append_of_le_length within
        conv_lhs => rw [← closed_append_tail (disk.wal.getD [])]
        rw [cut, List.append_assoc, lines_append (closed_terminated _),
          lines_unterminated clean (List.append_ne_nil_of_right_ne_nil _ full)]
        rfl
      · have past : (recordLine E.toWalExternals (ps.wal.nextRecord snap.marker)).length ≤ n := by
          rw [recordLine_length]
          exact Nat.lt_of_not_le within
        rw [reached, List.take_of_length_le past, lastLine, markerBytes,
          List.take_of_length_le (Nat.le_of_not_le within)]
        exact whole

theorem markerText_braced (ps : PersistentState) (snap : SyncSnapshot) :
    ∃ body, markerText E ps snap = 123 :: (body ++ [125]) := by
  obtain ⟨body, braced⟩ := format.braced (ps.wal.nextRecord snap.marker)
  refine ⟨utf8 body, ?_⟩
  rw [markerText, braced, utf8_append, utf8_append]
  rfl

theorem lastLine_solid (some_bytes : walIo ≠ .writeFails 0) {line : String}
    (text : lastLine E ps disk snap walIo = some line) : isBlank line = false := by
  obtain ⟨body, opened⟩ := markerText_braced format ps snap
  have inside : (123 : UInt8) ∈ markerBytes E ps snap walIo := by
    cases walIo with
    | ok | syncFails =>
        rw [markerBytes, opened]
        exact List.mem_cons_self
    | writeFails n =>
        cases n with
        | zero => exact absurd rfl some_bytes
        | succ n =>
            rw [markerBytes, opened]
            exact List.mem_cons_self
  have brace : '{' ∈ line.toList := by
    refine (ascii_mem_utf8 (c := '{') (by decide) line).mp ?_
    rw [decode_eq_some.mp text]
    exact List.mem_append_right _ inside
  rw [isBlank, List.all_eq_false]
  exact ⟨'{', brace, by decide⟩

theorem logged_of_meets (some_bytes : walIo ≠ .writeFails 0) {fate : Fate} (meets : Meets E ps disk snap walIo fate) :
    logged E (logLeft E ps disk snap walIo) = fate.ops := by
  obtain ⟨file, left, pieces⟩ := lines_logLeft format ps disk snap some_bytes
  rw [left]
  cases meets with
  | torn settled text broken =>
      rw [Fate.ops, logged_iff, pieces, text]
      simpa only [List.append_nil] using
        settled.reads_append (.torn (lastLine_solid format some_bytes text) broken)
  | read settled text parsed =>
      rw [Fate.ops, logged_iff, pieces, text, chain_append]
      exact settled.reads_append (.record (lastLine_solid format some_bytes text) parsed .nil)
  | lost unread =>
      refine logged_eq_none fun ops read => ?_
      rw [pieces] at read
      obtain ⟨front, back, same, whole, last⟩ := read.split (List.cons_ne_nil _ _)
      -- the complete lines hold the first of these ops
      have log : genesis.chain E.toWalExternals (ops.take front.length) = front := by
        rw [← chain_take, same, List.take_left']
        rfl
      rw [← log] at whole
      cases text : lastLine E ps disk snap walIo with
      | none => exact reads_unreadable (text ▸ last)
      | some line =>
          rw [text] at last
          obtain ⟨r, parsed, other⟩ := unread _ line whole text
          obtain ⟨more, rfl, rest⟩ := (reads_record (lastLine_solid format some_bytes text) parsed).mp last
          rw [← List.take_append_drop front.length ops, chain_append, log] at same
          obtain ⟨_, -, next, -⟩ := chain_eq_cons.mp (List.append_cancel_left same)
          exact other next

omit format in
theorem exists_meets (ps : PersistentState) (disk : Disk) (snap : SyncSnapshot) (walIo : AppendIo) :
    ∃ fate, Meets E ps disk snap walIo fate := by
  by_cases unread : ∀ log line, Settled E disk log → lastLine E ps disk snap walIo = some line →
      ∃ r, E.record.parse line = some r ∧ r ≠ (genesis.advance E.toWalExternals log).nextRecord r.op
  · exact ⟨.lost, .lost unread⟩
  · push Not at unread
    obtain ⟨log, line, settled, text, next⟩ := unread
    cases parsed : E.record.parse line with
    | none => exact ⟨.torn log, .torn settled text parsed⟩
    | some r => exact ⟨.read log r.op, .read settled text (next r parsed ▸ parsed)⟩

end Read

section Exact
variable (trip : E.snapshot.RoundTrips) (prefixes : E.snapshot.RejectsPrefixes) (empty : E.snapshot.RejectsEmpty)
  (format : E.record.LineFormat) {ps : PersistentState} {disk : Disk} {snap : SyncSnapshot} {store : StateStore}
  {walIo : AppendIo} {io : WriteIo}

theorem recovered_unwritten (E : Externals) (ps : PersistentState) (disk : Disk) (snap : SyncSnapshot)
    (store : StateStore) (io : WriteIo) :
    recovered E ⟨logLeft E ps disk snap (.writeFails 0), snapshotLeft E disk snap store (.writeFails 0) io⟩ =
      recovered E disk := by
  rw [recovered_eq, recovered_eq, logged_written_nothing]
  rfl

include format in
theorem recovered_left (some_bytes : walIo ≠ .writeFails 0) {fate : Fate} (meets : Meets E ps disk snap walIo fate)
    (snapshot : Option Bytes) : recovered E ⟨logLeft E ps disk snap walIo, snapshot⟩ =
      fate.ops.bind fun ops => rebuilt E ops snapshot := by
  rw [recovered_eq, logged_of_meets format some_bytes meets]

/-- Recovery behind the marker and the old snapshot file, by what that file holds. -/
theorem behindMarker_untouched (log : List WalOp) (root : String) (snapshot : Option Bytes) :
    (∃ s, loadSnapshotStore E snapshot = .ok s ∧ s.stateRoot E.shaHex = root ∧
      behindMarker E log root snapshot = some s) ∨
    (loadSnapshotStore E snapshot = .panicked ∧ behindMarker E log root snapshot = none) ∨
    (loadSnapshotStore E snapshot ≠ .panicked ∧
      (∀ s, loadSnapshotStore E snapshot = .ok s → s.stateRoot E.shaHex ≠ root) ∧
      behindMarker E log root snapshot = some (applyOps .new log)) := by
  rw [behindMarker]
  cases loadSnapshotStore E snapshot with
  | panicked => exact .inr (.inl ⟨rfl, rfl⟩)
  | err e => exact .inr (.inr ⟨nofun, nofun, rfl⟩)
  | ok s =>
      by_cases hit : s.stateRoot E.shaHex = root
      · exact .inl ⟨s, rfl, hit, congrArg some (if_pos hit)⟩
      · refine .inr (.inr ⟨nofun, ?_, congrArg some (if_neg hit)⟩)
        rintro _ ⟨⟩
        exact hit

include trip prefixes empty

theorem behindMarker_file (root : store.stateRoot E.shaHex = snap.stateRoot) (log : List WalOp) (written : ℕ) :
    behindMarker E log snap.stateRoot (some ((snap.file E store).take written)) =
      some (if (snap.file E store).length ≤ written then store else applyOps .new log) := by
  rw [← root]
  exact behindMarker_cut trip prefixes empty log store _ _ written

theorem spared_of_marker (root : store.stateRoot E.shaHex = snap.stateRoot) (failing : walIo = .ok → io ≠ .ok)
    {log : List WalOp} (meets : Meets E ps disk snap walIo (.read log snap.marker))
    (same : behindMarker E log snap.stateRoot (snapshotLeft E disk snap store walIo io) = recovered E disk) :
    Spared E ps disk snap store walIo io := by
  by_cases untouched : walIo = .ok → io = .createFails
  · rw [snapshotLeft_untouched untouched] at same
    rcases behindMarker_untouched log snap.stateRoot disk.snapshot with
      ⟨s, loads, hit, left⟩ | ⟨panics, left⟩ | ⟨calm, other, left⟩
    · exact .stored untouched meets loads hit (same.symm.trans left)
    · exact .stuck untouched meets panics (same.symm.trans left)
    · exact .unstored untouched meets calm other (same.symm.trans left)
  · obtain ⟨rfl, touched⟩ := Classical.not_imp.mp untouched
    cases io with
    | ok => exact absurd rfl (failing rfl)
    | createFails => exact absurd rfl touched
    | writeFails written =>
        rw [snapshotLeft, behindMarker_file trip prefixes empty root] at same
        by_cases full : (snap.file E store).length ≤ written
        · rw [if_pos full] at same
          exact .saved full meets same.symm
        · rw [if_neg full] at same
          exact .cut (Nat.lt_of_not_le full) meets same.symm

theorem rebuilt_file (root : store.stateRoot E.shaHex = snap.stateRoot) (log : List WalOp) (written : ℕ) :
    ((snap.file E store).length ≤ written ∧ Marked log snap.stateRoot ∧
      rebuilt E log (some ((snap.file E store).take written)) =
        some (applyOps store (log.drop (lastCheckpointIndex log + 1)))) ∨
    ¬ ((snap.file E store).length ≤ written ∧ Marked log snap.stateRoot) ∧
      rebuilt E log (some ((snap.file E store).take written)) = some (applyOps .new log) := by
  rw [rebuilt, recoveryBase]
  cases last : lastCheckpoint log with
  | none =>
      refine .inr ⟨?_, rfl⟩
      rintro ⟨-, height, tip, marked⟩
      cases last.symm.trans marked
  | some marker =>
      obtain ⟨height, tip, marked⟩ := marker
      by_cases short : written < (snap.file E store).length
      · obtain ⟨e, refused⟩ := load_cut prefixes empty short
        dsimp only
        rw [SyncSnapshot.file, refused]
        exact .inr ⟨fun both => absurd both.1 (Nat.not_le_of_lt short), rfl⟩
      · have full : (snap.file E store).length ≤ written := Nat.le_of_not_lt short
        dsimp only
        rw [List.take_of_length_le full, SyncSnapshot.file, load_saved trip]
        dsimp only
        by_cases hit : store.stateRoot E.shaHex = marked
        · rw [if_pos hit]
          exact .inl ⟨full, ⟨height, tip, by rw [last, ← hit, root]⟩, rfl⟩
        · rw [if_neg hit]
          refine .inr ⟨?_, rfl⟩
          rintro ⟨-, height', tip', marked'⟩
          cases last.symm.trans marked'
          exact hit root

theorem spared_of_other (root : store.stateRoot E.shaHex = snap.stateRoot) (failing : walIo = .ok → io ≠ .ok)
    {fate : Fate} (meets : Meets E ps disk snap walIo fate) {log : List WalOp} (ops : fate.ops = some log)
    (other : ∀ front, fate ≠ .read front snap.marker)
    (same : rebuilt E log (snapshotLeft E disk snap store walIo io) = recovered E disk) :
    Spared E ps disk snap store walIo io := by
  by_cases untouched : walIo = .ok → io = .createFails
  · rw [snapshotLeft_untouched untouched] at same
    exact .unread untouched meets ops same.symm other
  · obtain ⟨rfl, touched⟩ := Classical.not_imp.mp untouched
    cases io with
    | ok => exact absurd rfl (failing rfl)
    | createFails => exact absurd rfl touched
    | writeFails written =>
        rcases rebuilt_file trip prefixes empty root log written with ⟨full, last, left⟩ | ⟨missed, left⟩
        · exact .adopted full meets ops last (same.symm.trans left) other
        · exact .dropped missed meets ops (same.symm.trans left) other

include format

theorem recovered_of_spared (root : store.stateRoot E.shaHex = snap.stateRoot)
    (spared : Spared E ps disk snap store walIo io) :
    recovered E ⟨logLeft E ps disk snap walIo, snapshotLeft E disk snap store walIo io⟩ = recovered E disk := by
  by_cases nothing : walIo = .writeFails 0
  · rw [nothing]
    exact recovered_unwritten E ps disk snap store io
  have marked (log : List WalOp) (snapshot : Option Bytes) :
      rebuilt E (log ++ [snap.marker]) snapshot = behindMarker E log snap.stateRoot snapshot :=
    rebuilt_marked log _ _ _ snapshot
  cases spared with
  | unwritten => exact absurd rfl nothing
  | lost meets unreadable =>
      rw [recovered_left format nothing meets, unreadable]
      rfl
  | stored untouched meets loads hit same =>
      rw [recovered_left format nothing meets, snapshotLeft_untouched untouched, Fate.ops, Option.bind_some, marked,
        behindMarker, loads, same]
      exact congrArg some (if_pos hit)
  | @unstored _ _ log untouched meets calm other alone =>
      rw [recovered_left format nothing meets, snapshotLeft_untouched untouched, Fate.ops, Option.bind_some, marked,
        alone]
      rcases behindMarker_untouched log snap.stateRoot disk.snapshot with
        ⟨s, loads, hit, -⟩ | ⟨panics, -⟩ | ⟨-, -, left⟩
      · exact absurd hit (other s loads)
      · exact absurd panics calm
      · exact left
  | stuck untouched meets panics unreadable =>
      rw [recovered_left format nothing meets, snapshotLeft_untouched untouched, Fate.ops, Option.bind_some, marked,
        behindMarker, panics, unreadable]
  | cut short meets alone =>
      rw [recovered_left format nothing meets, snapshotLeft, Fate.ops, Option.bind_some, marked,
        behindMarker_file trip prefixes empty root, if_neg (Nat.not_le_of_lt short), alone]
  | saved full meets same =>
      rw [recovered_left format nothing meets, snapshotLeft, Fate.ops, Option.bind_some, marked,
        behindMarker_file trip prefixes empty root, if_pos full, same]
  | unread untouched meets ops same =>
      rw [recovered_left format nothing meets, snapshotLeft_untouched untouched, ops, same]
      rfl
  | @adopted written _ log full meets ops last same =>
      rw [recovered_left format nothing meets, snapshotLeft, ops, Option.bind_some, same]
      rcases rebuilt_file trip prefixes empty root log written with ⟨-, -, left⟩ | ⟨missed, -⟩
      · exact left
      · exact absurd ⟨full, last⟩ missed
  | @dropped written _ log missed meets ops alone =>
      rw [recovered_left format nothing meets, snapshotLeft, ops, Option.bind_some, alone]
      rcases rebuilt_file trip prefixes empty root log written with ⟨full, last, -⟩ | ⟨-, left⟩
      · exact absurd ⟨full, last⟩ missed
      · exact left

theorem spared_of_recovered (root : store.stateRoot E.shaHex = snap.stateRoot) (failing : walIo = .ok → io ≠ .ok)
    (same : recovered E ⟨logLeft E ps disk snap walIo, snapshotLeft E disk snap store walIo io⟩ =
      recovered E disk) : Spared E ps disk snap store walIo io := by
  by_cases nothing : walIo = .writeFails 0
  · rw [nothing]
    exact .unwritten
  obtain ⟨fate, meets⟩ := exists_meets (E := E) ps disk snap walIo
  rw [recovered_left format nothing meets] at same
  cases fate with
  | lost => exact .lost meets same.symm
  | torn log => exact spared_of_other trip prefixes empty root failing meets rfl (fun _ => nofun) same
  | read log op =>
      by_cases marker : op = snap.marker
      · subst marker
        rw [Fate.ops, Option.bind_some, SyncSnapshot.marker, rebuilt_marked] at same
        exact spared_of_marker trip prefixes empty root failing meets same
      · refine spared_of_other trip prefixes empty root failing meets rfl (fun front read => marker ?_) same
        cases read
        rfl

/-- A call is atomic exactly if it verifies nothing, succeeds, or brings what is there already and
is spared. -/
theorem atomic_iff : Atomic E ps disk snap walIo io ↔ ∀ store, verifySnapshot E snap = .ok store →
    (walIo = .ok ∧ io = .ok) ∨ (ps.store = store ∧ Spared E ps disk snap store walIo io) := by
  cases verified : verifySnapshot E snap with
  | error e =>
      refine iff_of_true (fun e' failed => ?_) nofun
      simp only [persistVerified, verified]
      exact ⟨trivial, trivial⟩
  | ok store =>
      have root := (verifySnapshot_ok.mp verified).2
      obtain ⟨process, left, fails⟩ := persist_left trip ps disk verified walIo io
      rw [Atomic, process, left]
      have only {P : StateStore → Prop} : (∀ s, Except.ok (ε := SyncError) store = .ok s → P s) ↔ P store :=
        ⟨fun all => all store rfl, fun holds s same => Except.ok.inj same ▸ holds⟩
      rw [only]
      by_cases fine : walIo = .ok ∧ io = .ok
      · refine iff_of_true (fun e failed => ?_) (.inl fine)
        exact absurd fine (fails.mp ⟨e, failed⟩)
      · obtain ⟨e, failed⟩ := fails.mpr fine
        have failing (wrote : walIo = .ok) (saved : io = .ok) : False := fine ⟨wrote, saved⟩
        rw [or_iff_right fine]
        constructor
        · intro atomic
          obtain ⟨same, recovers⟩ := atomic e failed
          exact ⟨same.symm, spared_of_recovered trip prefixes empty format root failing recovers⟩
        · rintro ⟨same, spared⟩ _ _
          exact ⟨same.symm, recovered_of_spared trip prefixes empty format root spared⟩

end Exact

section WholeLog

theorem nextRecord_inj {wal wal' : WriteAheadLog} {op : WalOp} (same : wal.nextRecord op = wal'.nextRecord op) :
    wal = wal' := by
  obtain ⟨seq, prevHash⟩ := wal
  obtain ⟨seq', prevHash'⟩ := wal'
  simp only [nextRecord, WalRecord.mk.injEq, and_true] at same
  obtain ⟨seqs, rfl⟩ := same
  rw [(UInt64.add_left_inj 1).mp seqs]

variable (format : E.record.LineFormat) {ps : PersistentState} {disk : Disk} {log : List WalOp}
  {snap : SyncSnapshot} {walIo : AppendIo} (written : Written E disk log)
include format written

theorem recovered_whole : recovered E disk = rebuilt E log disk.snapshot := by
  rw [recovered_eq, logged, readOps_written format written]
  rfl

theorem settled_iff {log' : List WalOp} : Settled E disk log' ↔ log' = log := by
  have file : disk.wal.getD [] = logBytes E.toWalExternals (genesis.chain E.toWalExternals log) := written
  have whole : Whole E.toWalExternals (lines (logBytes E.toWalExternals (genesis.chain E.toWalExternals log)))
    (genesis.chain E.toWalExternals log) := whole_logBytes format _
  rw [Settled, file, closed_of_terminated (logBytes_terminated _)]
  constructor
  · exact fun settled => chain_inj (settled.reads.unique whole.reads)
  · rintro rfl
    exact whole

omit format in
theorem lastLine_whole : lastLine E ps disk snap walIo = decode (markerBytes E ps snap walIo) := by
  have file : disk.wal.getD [] = logBytes E.toWalExternals (genesis.chain E.toWalExternals log) := written
  rw [lastLine, file, tail_of_terminated (logBytes_terminated _), List.nil_append]

/-- A marker that is in the log up to its newline is read if the handle stood at the end. -/
theorem meets_complete (complete : ∀ n, walIo = .writeFails n → (markerText E ps snap).length ≤ n) :
    (Follows E ps log → Meets E ps disk snap walIo (.read log snap.marker)) ∧
      (¬ Follows E ps log → Meets E ps disk snap walIo .lost) := by
  have bytes : markerBytes E ps snap walIo = markerText E ps snap := by
    cases walIo with
    | ok | syncFails => rfl
    | writeFails n => exact List.take_of_length_le (complete n rfl)
  have text : lastLine E ps disk snap walIo = some (E.record.text (ps.wal.nextRecord snap.marker)) := by
    rw [lastLine_whole written, bytes]
    exact decode_utf8 _
  have parsed := format.roundTrips (ps.wal.nextRecord snap.marker)
  constructor
  · intro follows
    refine .read ((settled_iff format written).mpr rfl) text ?_
    rw [← show ps.wal = genesis.advance E.toWalExternals log from follows]
    exact parsed
  · intro elsewhere
    refine .lost fun log' line settled found => ⟨ps.wal.nextRecord snap.marker, ?_, fun next => elsewhere ?_⟩
    · cases text.symm.trans found
      exact parsed
    · obtain rfl := (settled_iff format written).mp settled
      exact nextRecord_inj next

theorem meets_short (prefixes : E.record.RejectsPrefixes) {n : ℕ} (begun : 0 < n)
    (short : n < (markerText E ps snap).length) : Meets E ps disk snap (.writeFails n)
      (if (decode ((markerText E ps snap).take n)).isSome then .torn log else .lost) := by
  have text : lastLine E ps disk snap (.writeFails n) = decode ((markerText E ps snap).take n) :=
    lastLine_whole written
  cases found : decode ((markerText E ps snap).take n) with
  | none =>
      refine .lost fun _ _ _ there => ?_
      rw [text, found] at there
      cases there
  | some t =>
      obtain ⟨rest, same, left⟩ := decode_prefix (List.take_append_drop n (markerText E ps snap)) found
      refine .torn ((settled_iff format written).mpr rfl) (text.trans found) (prefixes _ t rest same ?_ ?_)
      · rintro rfl
        have nothing := congrArg List.length (decode_eq_some.mp found)
        rw [utf8_empty, List.length_nil, List.length_take] at nothing
        omega
      · rintro rfl
        have nothing := congrArg List.length left
        rw [utf8_empty, List.length_nil, List.length_drop] at nothing
        omega

end WholeLog

/-- When a failing sync leaves everything as it was; and what becomes of the marker in a log of whole
records, where what is recovered is what these ops and the snapshot file give. -/
theorem persist_atomic_iff (trip : E.snapshot.RoundTrips) (prefixes : E.snapshot.RejectsPrefixes)
    (empty : E.snapshot.RejectsEmpty) (format : E.record.LineFormat) (recordPrefixes : E.record.RejectsPrefixes)
    (ps : PersistentState) (disk : Disk) (snap : SyncSnapshot) :
    (∀ walIo io, Atomic E ps disk snap walIo io ↔ ∀ store, verifySnapshot E snap = .ok store →
      (walIo = .ok ∧ io = .ok) ∨ (ps.store = store ∧ Spared E ps disk snap store walIo io)) ∧
    ∀ log, Written E disk log →
      recovered E disk = rebuilt E log disk.snapshot ∧
      (∀ n, 0 < n → n < (markerText E ps snap).length → Meets E ps disk snap (.writeFails n)
        (if (decode ((markerText E ps snap).take n)).isSome then .torn log else .lost)) ∧
      ∀ walIo, (∀ n, walIo = .writeFails n → (markerText E ps snap).length ≤ n) →
        (Follows E ps log → Meets E ps disk snap walIo (.read log snap.marker)) ∧
        (¬ Follows E ps log → Meets E ps disk snap walIo .lost) := by
  refine ⟨fun walIo io => atomic_iff trip prefixes empty format, fun log written =>
    ⟨recovered_whole format written, fun n begun short => ?_, fun walIo complete => ?_⟩⟩
  · exact meets_short format written recordPrefixes begun short
  · exact meets_complete format written complete

section First

theorem firstSync_saved : Saved jsonNode firstSync.1 firstSync.2.1 [firstSnapshot.marker] firstSync.1.store :=
  (sync_saved jsonNode_roundTrips first_follows first_written firstSync_ok).2

theorem firstSync_recovers : recovered jsonNode firstSync.2.1 = some (StateStore.new.apply (.set "a" "1")) := by
  obtain ⟨ps', disk', opened, store⟩ := firstSync_saved.open jsonWal_format
  rw [recovered, opened, ← firstSync_store, ← store]

theorem firstSync_meets : Meets jsonNode firstSync.1 firstSync.2.1 firstSnapshot .ok
    (.read [firstSnapshot.marker] firstSnapshot.marker) :=
  (meets_complete jsonWal_format firstSync_saved.written (by rintro n ⟨⟩)).1 firstSync_saved.follows

/-- The same snapshot comes again, and only the first byte of the marker is written. -/
theorem persist_atomic_again : Atomic jsonNode firstSync.1 firstSync.2.1 firstSnapshot (.writeFails 1) .ok := by
  obtain ⟨exact, whole⟩ := persist_atomic_iff jsonNode_roundTrips jsonNode_rejectsPrefixes jsonNode_rejectsEmpty
    jsonWal_format jsonWal_rejectsPrefixes firstSync.1 firstSync.2.1 firstSnapshot
  obtain ⟨held, short, -⟩ := whole _ firstSync_saved.written
  obtain ⟨body, braced⟩ := @markerText_braced jsonNode jsonWal_format firstSync.1 firstSnapshot
  have torn := short 1 Nat.one_pos (by simp [braced])
  rw [braced, List.take_succ_cons, List.take_zero, if_pos (by decide)] at torn
  refine (exact _ _).mpr fun store verified => .inr ⟨?_, .unread nofun torn rfl held fun _ => nofun⟩
  cases firstSnapshot_verifies.symm.trans verified
  exact firstSync_store

theorem firstSync_emptied :
    recovered jsonNode ⟨logLeft jsonNode firstSync.1 firstSync.2.1 firstSnapshot .ok,
      snapshotLeft jsonNode firstSync.2.1 firstSnapshot (StateStore.new.apply (.set "a" "1"))
        .ok (.writeFails 0)⟩ = some .new := by
  have lost : ¬ (firstSnapshot.file jsonNode (StateStore.new.apply (.set "a" "1"))).length ≤ 0 := by
    intro nothing
    have empty := utf8_eq_nil.mp (List.length_eq_zero_iff.mp (Nat.le_zero.mp nothing))
    exact jsonNode_braced.ne_empty _ empty
  have root := (verifySnapshot_ok.mp firstSnapshot_verifies).2
  rw [recovered_left jsonWal_format (by decide) firstSync_meets, Fate.ops, Option.bind_some, SyncSnapshot.marker,
    rebuilt_marked, snapshotLeft, behindMarker_file jsonNode_roundTrips jsonNode_rejectsPrefixes
      jsonNode_rejectsEmpty root, if_neg lost]
  rfl

/-- On a full disk the failed call has replaced the store; where only the snapshot file fails, the
entries can no longer be recovered. -/
theorem persist_not_atomic :
    ¬ Atomic jsonNode ⟨.new, genesis⟩ ⟨some [], none⟩ firstSnapshot (.writeFails 0) .ok ∧
      ¬ Atomic jsonNode firstSync.1 firstSync.2.1 firstSnapshot .ok (.writeFails 0) := by
  have entry : StateStore.new ≠ StateStore.new.apply (.set "a" "1") := by
    intro same
    have found := congrArg (fun s : StateStore => s.entries[("a" : String)]?) same
    simp [StateStore.new, StateStore.apply] at found
  constructor
  · intro atomic
    obtain ⟨process, -, fails⟩ := persist_left jsonNode_roundTrips ⟨.new, genesis⟩ ⟨some [], none⟩
      firstSnapshot_verifies (.writeFails 0) .ok
    obtain ⟨e, failed⟩ := fails.mpr (by simp)
    exact entry ((atomic e failed).1.symm.trans process)
  · intro atomic
    obtain ⟨-, left, fails⟩ := persist_left jsonNode_roundTrips firstSync.1 firstSync.2.1
      firstSnapshot_verifies .ok (.writeFails 0)
    obtain ⟨e, failed⟩ := fails.mpr (by simp)
    have same := (atomic e failed).2
    rw [left, firstSync_emptied, firstSync_recovers] at same
    exact entry (Option.some.inj same)

end First

end KaiOs.Syncd
