import KaiOs.State.CrashRuns

/-! The rollback boundary of a node over runs with crashes. It is read from the snapshot
file alone, so it follows the last checkpoint that reached that file. -/
namespace KaiOs
open PersistentState WriteAheadLog

/-- How far a checkpoint came: it returned, or the node died behind the marker, inside the
snapshot file or behind its last byte. -/
inductive Ending where
  | completed
  | marked
  | cut
  | whole
  deriving DecidableEq

/-- How a checkpoint ends that writes a snapshot of this length. -/
def Ending.of (length : ℕ) : WriteIo → Ending
  | .ok => .completed
  | .createFails => .marked
  | .writeFails written => if written < length then .cut else .whole

structure Attempt where
  boundary : VerifiedBoundary
  ending : Ending

section
variable (E : Externals)

def genesisBoundary : VerifiedBoundary := ⟨0, "", StateStore.new.stateRoot E.shaHex⟩

namespace PersistentState

def attempt (ps : PersistentState) (height : UInt64) (tipBlockHash : String) (io : WriteIo) :
    Attempt where
  boundary := ⟨height, tipBlockHash, ps.store.stateRoot E.shaHex⟩
  ending := .of (snapshotBytes E ps.store height tipBlockHash).length io

/-- The checkpoint a crash interrupts. -/
def crashAttempts (ps : PersistentState) : Crash → List Attempt
  | .atRest => []
  | .afterRecord _ => []
  | .afterMarker height tip => [ps.attempt E height tip .createFails]
  | .duringSnapshot height tip written => [ps.attempt E height tip (.writeFails written)]

end PersistentState

/-- The runs of a node, with the checkpoints it has begun, the last one first. -/
inductive Recorded : Disk → Option PersistentState → List WalOp → List Attempt → Prop where
  | fresh : Recorded ⟨none, none⟩ none [] []
  | openState {disk process log past ps disk'} : Recorded disk process log past →
      openState E disk = .ok (ps, disk') → Recorded disk' (some ps) log past
  | apply {disk ps log past} (tx : Tx) : Recorded disk (some ps) log past →
      Recorded (ps.apply E disk tx .ok).2.1 (some (ps.apply E disk tx .ok).1)
        (log ++ [.apply tx]) past
  | checkpoint {disk ps log past} (height : UInt64) (tip : String) :
      Recorded disk (some ps) log past →
      Recorded (ps.checkpoint E disk height tip .ok .ok).2.1
        (some (ps.checkpoint E disk height tip .ok .ok).1) (log ++ [ps.marker E height tip])
        (ps.attempt E height tip .ok :: past)
  | crash {disk ps log past} (c : Crash) : Recorded disk (some ps) log past →
      Recorded (ps.crashDisk E disk c) none (log ++ ps.crashOps E c)
        (ps.crashAttempts E c ++ past)

/-- What the snapshot file says behind these checkpoints. -/
def shown : List Attempt → VerifiedBoundary
  | [] => genesisBoundary E
  | a :: past => match a.ending with
    | .completed => a.boundary
    | .marked => shown past
    | .cut => genesisBoundary E
    | .whole => a.boundary

end

/-- The last completed checkpoint and the ones interrupted since. -/
def current : List Attempt → List VerifiedBoundary
  | [] => []
  | a :: past => if a.ending = .completed then [a.boundary] else a.boundary :: current past

/-- No checkpoint has completed. -/
def NoneCompleted (past : List Attempt) : Prop := ∀ a ∈ past, a.ending ≠ .completed

/-- The last checkpoint that reached the snapshot file was cut off inside it. -/
def LastCut : List Attempt → Prop
  | [] => False
  | a :: past => match a.ending with
    | .completed => False
    | .marked => LastCut past
    | .cut => True
    | .whole => False

/-- A boundary that has not moved back. -/
def NeverBack (E : Externals) (past : List Attempt) (boundary : VerifiedBoundary) : Prop :=
  boundary ∈ current past ∨ (NoneCompleted past ∧ boundary = genesisBoundary E)

variable {E : Externals}

theorem Reaches.recorded {disk : Disk} {process : Option PersistentState} {log : List WalOp}
    (run : Reaches E disk process log) : ∃ past, Recorded E disk process log past := by
  induction run with
  | fresh => exact ⟨[], .fresh⟩
  | openState _ opened ih =>
      obtain ⟨past, before⟩ := ih
      exact ⟨past, .openState before opened⟩
  | apply tx _ ih =>
      obtain ⟨past, before⟩ := ih
      exact ⟨past, .apply tx before⟩
  | checkpoint height tip _ ih =>
      obtain ⟨past, before⟩ := ih
      exact ⟨_, .checkpoint height tip before⟩
  | crash c _ ih =>
      obtain ⟨past, before⟩ := ih
      exact ⟨_, .crash c before⟩

section File
variable (trip : E.snapshot.RoundTrips) (prefixes : E.snapshot.RejectsPrefixes)
  (empty : E.snapshot.RejectsEmpty)

theorem boundary_of_meta {disk : Disk} {height : UInt64} {tip root : String}
    (read : snapshotMeta E disk.snapshot = .ok (height, tip, root)) :
    lastVerifiedBoundary E disk = ⟨height, tip, root⟩ := by
  simp only [lastVerifiedBoundary, read]

theorem boundary_of_error {disk : Disk} {e : IoError}
    (refused : snapshotMeta E disk.snapshot = .error e) :
    lastVerifiedBoundary E disk = genesisBoundary E := by
  simp only [lastVerifiedBoundary, refused, genesisBoundary]

include trip prefixes empty in
theorem boundary_saved (ps : PersistentState) (wal : Option Utf8.Bytes) (disk : Disk)
    (height : UInt64) (tip : String) (io : WriteIo) {past : List Attempt}
    (before : lastVerifiedBoundary E disk = shown E past) :
    lastVerifiedBoundary E ⟨wal, (saveSnapshotStore E ps.store height tip disk.snapshot io).1⟩ =
      shown E (ps.attempt E height tip io :: past) := by
  cases io with
  | ok =>
      rw [save_ok trip]
      exact boundary_of_meta (meta_saved trip ps.store height tip)
  | createFails => exact before
  | writeFails n =>
      by_cases short : n < (snapshotBytes E ps.store height tip).length
      · obtain ⟨e, refused⟩ := meta_cut prefixes empty short
        simp only [shown, attempt, Ending.of, if_pos short, saveSnapshotStore]
        exact boundary_of_error refused
      · simp only [shown, attempt, Ending.of, if_neg short, saveSnapshotStore]
        rw [List.take_of_length_le (Nat.le_of_not_lt short)]
        exact boundary_of_meta (meta_saved trip ps.store height tip)

theorem snapshotBytes_pos (braced : E.snapshot.Braced) (store : StateStore) (height : UInt64)
    (tip : String) : 0 < (snapshotBytes E store height tip).length := by
  rw [List.length_pos_iff]
  exact fun empty => braced.ne_empty _ (Utf8.utf8_eq_nil.mp empty)

end File

section Runs

/-- What every recorded run keeps. -/
structure Steady (E : Externals) (disk : Disk) (log : List WalOp) (past : List Attempt) : Prop where
  written : Written E disk log
  calm : loadSnapshotStore E disk.snapshot ≠ .panicked
  boundary : lastVerifiedBoundary E disk = shown E past

variable (trip : E.snapshot.RoundTrips) (prefixes : E.snapshot.RejectsPrefixes)
  (empty : E.snapshot.RejectsEmpty)

theorem Steady.apply {ps : PersistentState} {disk : Disk} {log : List WalOp} {past : List Attempt}
    (steady : Steady E disk log past) (follows : Follows E ps log) (tx : Tx) :
    Steady E (ps.apply E disk tx .ok).2.1 (log ++ [.apply tx]) past := by
  rw [(apply_eq follows steady.written tx).2]
  exact ⟨rfl, steady.calm, steady.boundary⟩

include trip prefixes empty in
theorem Steady.checkpoint {ps : PersistentState} {disk : Disk} {log : List WalOp}
    {past : List Attempt} (steady : Steady E disk log past) (follows : Follows E ps log)
    (height : UInt64) (tip : String) (io : WriteIo) :
    Steady E (ps.checkpoint E disk height tip .ok io).2.1 (log ++ [ps.marker E height tip])
      (ps.attempt E height tip io :: past) := by
  rw [(checkpoint_eq follows steady.written height tip io).2]
  refine ⟨rfl, ?_, boundary_saved trip prefixes empty ps _ disk height tip io steady.boundary⟩
  rcases save_leaves trip prefixes empty ps.store height tip disk.snapshot io with kept | ⟨calm, _⟩
  · rw [kept]
    exact steady.calm
  · exact calm

variable (format : E.record.LineFormat)

include trip prefixes empty format in
theorem Recorded.steady {disk : Disk} {process : Option PersistentState} {log : List WalOp}
    {past : List Attempt} (run : Recorded E disk process log past) :
    Steady E disk log past ∧ ∀ ps ∈ process, Follows E ps log := by
  induction run with
  | fresh =>
      refine ⟨⟨rfl, by simp [loadSnapshotStore], rfl⟩, ?_⟩
      intro ps member
      cases member
  | openState _ opened ih =>
      have steady := ih.1
      obtain ⟨follows, written⟩ := openState_follows format steady.written opened
      rw [openState_eq format steady.written steady.calm] at opened
      cases opened
      refine ⟨⟨written, steady.calm, steady.boundary⟩, ?_⟩
      intro ps member
      cases member
      exact follows
  | apply tx _ ih =>
      have follows := ih.2 _ rfl
      refine ⟨ih.1.apply follows tx, ?_⟩
      intro ps member
      cases member
      rw [(apply_eq follows ih.1.written tx).1]
      rfl
  | checkpoint height tip _ ih =>
      have follows := ih.2 _ rfl
      refine ⟨ih.1.checkpoint trip prefixes empty follows height tip .ok, ?_⟩
      intro ps member
      cases member
      rw [(checkpoint_eq follows ih.1.written height tip .ok).1]
      rfl
  | crash c _ ih =>
      have follows := ih.2 _ rfl
      constructor
      · cases c with
        | atRest =>
            rw [PersistentState.crashOps, List.append_nil]
            exact ih.1
        | afterRecord tx => exact ih.1.apply follows tx
        | afterMarker height tip =>
            exact ih.1.checkpoint trip prefixes empty follows height tip .createFails
        | duringSnapshot height tip n =>
            exact ih.1.checkpoint trip prefixes empty follows height tip (.writeFails n)
      · intro ps member
        cases member

include trip prefixes empty format in
theorem Recorded.reopened {disk : Disk} {process : Option PersistentState} {log : List WalOp}
    {past : List Attempt} (run : Recorded E disk process log past) :
    ∃ ps disk', PersistentState.openState E disk = .ok (ps, disk') ∧
      lastVerifiedBoundary E disk' = shown E past := by
  obtain ⟨steady, _⟩ := run.steady trip prefixes empty format
  exact ⟨_, _, openState_eq format steady.written steady.calm, steady.boundary⟩

end Runs

section Record

theorem shown_of_cut {past : List Attempt} (torn : LastCut past) :
    shown E past = genesisBoundary E := by
  induction past with
  | nil => cases torn
  | cons a past ih =>
      cases ended : a.ending with
      | completed =>
          rw [LastCut, ended] at torn
          cases torn
      | marked =>
          rw [LastCut, ended] at torn
          rw [shown, ended]
          exact ih torn
      | cut => rw [shown, ended]
      | whole =>
          rw [LastCut, ended] at torn
          cases torn

theorem current_cons {a : Attempt} (past : List Attempt) (interrupted : a.ending ≠ .completed) :
    current (a :: past) = a.boundary :: current past := if_neg interrupted

/-- As long as the file is not left cut off, the boundary stays. -/
theorem neverBack_shown {past : List Attempt} (sound : ¬LastCut past) :
    NeverBack E past (shown E past) := by
  induction past with
  | nil => exact .inr ⟨List.forall_mem_nil _, rfl⟩
  | cons a past ih =>
      cases ended : a.ending with
      | completed =>
          left
          rw [shown, ended, current, if_pos ended]
          exact List.mem_singleton_self _
      | marked =>
          have open_left : a.ending ≠ .completed := by simp [ended]
          rw [LastCut, ended] at sound
          rw [shown, ended]
          rcases ih sound with member | ⟨none_completed, same⟩
          · left
            rw [current_cons past open_left]
            exact List.mem_cons_of_mem _ member
          · exact .inr ⟨List.forall_mem_cons.mpr ⟨open_left, none_completed⟩, same⟩
      | cut =>
          rw [LastCut, ended] at sound
          exact absurd trivial sound
      | whole =>
          left
          rw [shown, ended, current_cons past (by simp [ended])]
          exact List.mem_cons_self

/-- The boundary has not moved back exactly if the file is not left cut off, or falling
back to genesis is right. -/
theorem neverBack_iff (past : List Attempt) :
    NeverBack E past (shown E past) ↔
      (LastCut past → NoneCompleted past ∨ genesisBoundary E ∈ current past) := by
  constructor
  · intro kept torn
    rw [shown_of_cut torn] at kept
    rcases kept with member | ⟨none_completed, _⟩
    · exact .inr member
    · exact .inl none_completed
  · intro allowed
    by_cases torn : LastCut past
    · rw [shown_of_cut torn]
      rcases allowed torn with none_completed | member
      · exact .inr ⟨none_completed, rfl⟩
      · exact .inl member
    · exact neverBack_shown torn

end Record

/-- After every run a reopen succeeds, and its boundary has not moved back exactly if the
last checkpoint that reached the snapshot file wrote all of it, no checkpoint has completed,
or one of those in question is the genesis boundary itself. -/
theorem boundary_never_back_iff (trip : E.snapshot.RoundTrips)
    (prefixes : E.snapshot.RejectsPrefixes) (empty : E.snapshot.RejectsEmpty)
    (format : E.record.LineFormat) {disk : Disk} {process : Option PersistentState}
    {log : List WalOp} {past : List Attempt} (run : Recorded E disk process log past) :
    ∃ ps disk', openState E disk = .ok (ps, disk') ∧
      (NeverBack E past (lastVerifiedBoundary E disk') ↔
        (LastCut past → NoneCompleted past ∨ genesisBoundary E ∈ current past)) := by
  obtain ⟨ps, disk', opened, boundary⟩ := run.reopened trip prefixes empty format
  refine ⟨ps, disk', opened, ?_⟩
  rw [boundary]
  exact neverBack_iff past

section Node
variable (E : Externals)

/-- A node that has just been opened on an empty disk. -/
def emptyNode : PersistentState := ⟨.new, genesis⟩

/-- It has finished its first checkpoint, at height 1. -/
def checkpointed : PersistentState × Disk × Outcome WalError Unit :=
  emptyNode.checkpoint E ⟨some [], none⟩ 1 "t" .ok .ok

/-- The record of a node that begins a second checkpoint, at height 2. -/
def begun (io : WriteIo) : List Attempt :=
  [(checkpointed E).1.attempt E 2 "u" io, emptyNode.attempt E 1 "t" .ok]

theorem checkpointed_recorded :
    Recorded E (checkpointed E).2.1 (some (checkpointed E).1) [emptyNode.marker E 1 "t"]
      [emptyNode.attempt E 1 "t" .ok] := by
  have opened : openState E ⟨none, none⟩ = .ok (emptyNode, ⟨some [], none⟩) := rfl
  exact .checkpoint 1 "t" (.openState .fresh opened)

theorem begun_marked :
    Recorded E ((checkpointed E).1.crashDisk E (checkpointed E).2.1 (.afterMarker 2 "u")) none
      [emptyNode.marker E 1 "t", (checkpointed E).1.marker E 2 "u"] (begun E .createFails) :=
  (checkpointed_recorded E).crash (.afterMarker 2 "u")

theorem begun_emptied :
    Recorded E ((checkpointed E).1.crashDisk E (checkpointed E).2.1 (.duringSnapshot 2 "u" 0)) none
      [emptyNode.marker E 1 "t", (checkpointed E).1.marker E 2 "u"] (begun E (.writeFails 0)) :=
  (checkpointed_recorded E).crash (.duringSnapshot 2 "u" 0)

variable {E}

theorem begun_completed (io : WriteIo) : ¬NoneCompleted (begun E io) := fun none_completed =>
  none_completed (emptyNode.attempt E 1 "t" .ok) (List.mem_cons_of_mem _ List.mem_cons_self) rfl

theorem not_lastCut_marked : ¬LastCut (begun E .createFails) := id

theorem lastCut_emptied (braced : E.snapshot.Braced) : LastCut (begun E (.writeFails 0)) := by
  simp only [begun, LastCut, attempt, Ending.of, if_pos (snapshotBytes_pos braced _ _ _)]

theorem genesis_not_current {io : WriteIo} (interrupted : io ≠ .ok) :
    genesisBoundary E ∉ current (begun E io) := by
  have shape : current (begun E io) =
      [((checkpointed E).1.attempt E 2 "u" io).boundary, (emptyNode.attempt E 1 "t" .ok).boundary] := by
    have open_left : ((checkpointed E).1.attempt E 2 "u" io).ending ≠ .completed := by
      cases io with
      | ok => exact absurd rfl interrupted
      | createFails => simp [attempt, Ending.of]
      | writeFails n =>
          simp only [attempt, Ending.of]
          split_ifs <;> decide
    exact current_cons _ open_left
  intro member
  rw [shape] at member
  rcases List.mem_cons.mp member with same | member
  · cases congrArg VerifiedBoundary.height same
  · cases congrArg VerifiedBoundary.height (List.mem_singleton.mp member)

theorem emptied_moves_back (braced : E.snapshot.Braced) :
    ¬NeverBack E (begun E (.writeFails 0)) (shown E (begun E (.writeFails 0))) := by
  rw [shown_of_cut (lastCut_emptied braced)]
  rintro (member | ⟨none_completed, _⟩)
  · exact genesis_not_current (by simp) member
  · exact begun_completed _ none_completed

end Node

theorem boundary_kept_behind_marker :
    ∃ ps disk', openState jsonNode ((checkpointed jsonNode).1.crashDisk jsonNode
        (checkpointed jsonNode).2.1 (.afterMarker 2 "u")) = .ok (ps, disk') ∧
      NeverBack jsonNode (begun jsonNode .createFails) (lastVerifiedBoundary jsonNode disk') := by
  obtain ⟨ps, disk', opened, kept⟩ := boundary_never_back_iff jsonNode_roundTrips
    jsonNode_rejectsPrefixes jsonNode_rejectsEmpty jsonWal_format (begun_marked jsonNode)
  have sound : ¬LastCut (begun jsonNode .createFails) := not_lastCut_marked
  refine ⟨ps, disk', opened, kept.mpr ?_⟩
  intro torn
  exact absurd torn sound

theorem emptied_snapshot_moves_back :
    ∃ ps disk', openState jsonNode ((checkpointed jsonNode).1.crashDisk jsonNode
        (checkpointed jsonNode).2.1 (.duringSnapshot 2 "u" 0)) = .ok (ps, disk') ∧
      ¬NeverBack jsonNode (begun jsonNode (.writeFails 0)) (lastVerifiedBoundary jsonNode disk') := by
  obtain ⟨ps, disk', opened, boundary⟩ := (begun_emptied jsonNode).reopened jsonNode_roundTrips
    jsonNode_rejectsPrefixes jsonNode_rejectsEmpty jsonWal_format
  refine ⟨ps, disk', opened, ?_⟩
  rw [boundary]
  exact emptied_moves_back jsonNode_braced

end KaiOs
