import KaiOs.State.Boundary

/-! What any content of the snapshot file does to the rollback boundary and to a boot. -/
namespace KaiOs
open Utf8 PersistentState WriteAheadLog

section
variable (E : Externals)

/-- The snapshot in a file, its root unchecked. -/
def readSnapshot (path : Option Bytes) : Option PersistedSnapshot :=
  path.bind fun raw => (decode raw).bind E.snapshot.parse

def snapshotFile (snap : PersistedSnapshot) : Option Bytes := some (utf8 (E.snapshot.text snap))

/-- The stored root is the root of the stored entries. -/
def PersistedSnapshot.Sealed (snap : PersistedSnapshot) : Prop := snap.toStore.stateRoot E.shaHex = snap.stateRoot

/-- The file is a snapshot with the root of its entries and of the last marker. -/
def AtMarker (ops : List WalOp) (path : Option Bytes) : Prop :=
  ∃ snap height tip, readSnapshot E path = some snap ∧ snap.Sealed E ∧
    lastCheckpoint ops = some (height, tip, snap.stateRoot)

end

variable {E : Externals} {path : Option Bytes} {snap : PersistedSnapshot}

theorem readSnapshot_file (trip : E.snapshot.RoundTrips) (snap : PersistedSnapshot) :
    readSnapshot E (snapshotFile E snap) = some snap := by
  rw [readSnapshot, snapshotFile, Option.bind_some, decode_utf8, Option.bind_some, trip snap]

theorem readSnapshot_some (read : readSnapshot E path = some snap) :
    ∃ raw text, path = some raw ∧ decode raw = some text ∧ E.snapshot.parse text = some snap := by
  obtain ⟨raw, rfl, rest⟩ := Option.bind_eq_some_iff.mp read
  obtain ⟨text, decoded, parsed⟩ := Option.bind_eq_some_iff.mp rest
  exact ⟨raw, text, rfl, decoded, parsed⟩

theorem meta_of_read (read : readSnapshot E path = some snap) :
    snapshotMeta E path = .ok (snap.height, snap.tipBlockHash, snap.stateRoot) := by
  obtain ⟨raw, text, rfl, decoded, parsed⟩ := readSnapshot_some read
  simp only [snapshotMeta, decoded, parsed]

theorem meta_of_unread (unread : readSnapshot E path = none) : ∃ e, snapshotMeta E path = .error e := by
  cases path with
  | none => exact ⟨.notFound, rfl⟩
  | some raw =>
      rw [readSnapshot, Option.bind_some] at unread
      cases decoded : decode raw with
      | none => exact ⟨.invalidData, by simp only [snapshotMeta, decoded]⟩
      | some text =>
          rw [decoded, Option.bind_some] at unread
          exact ⟨.parse, by simp only [snapshotMeta, decoded, unread]⟩

theorem load_of_unread (unread : readSnapshot E path = none) : ∃ e, loadSnapshotStore E path = .err e := by
  obtain ⟨e, refused⟩ := meta_of_unread unread
  exact ⟨e, load_of_meta refused⟩

theorem load_of_sealed (read : readSnapshot E path = some snap) (whole : snap.Sealed E) :
    loadSnapshotStore E path = .ok snap.toStore := by
  obtain ⟨raw, text, rfl, decoded, parsed⟩ := readSnapshot_some read
  unfold PersistedSnapshot.Sealed at whole
  simp only [loadSnapshotStore, decoded, parsed, whole, ne_eq, not_true_eq_false, if_false]

theorem load_of_unsealed (read : readSnapshot E path = some snap) (broken : ¬snap.Sealed E) :
    (∃ e, loadSnapshotStore E path = .err e ∧ firstSixteen snap.stateRoot ≠ none) ∨
      (loadSnapshotStore E path = .panicked ∧ firstSixteen snap.stateRoot = none) := by
  obtain ⟨raw, text, rfl, decoded, parsed⟩ := readSnapshot_some read
  unfold PersistedSnapshot.Sealed at broken
  simp only [loadSnapshotStore, decoded, parsed, ne_eq, broken, not_false_eq_true, if_true]
  cases firstSixteen snap.stateRoot with
  | none => exact .inr ⟨rfl, rfl⟩
  | some front => exact .inl ⟨_, rfl, Option.some_ne_none front⟩

/-- A file that is no snapshot is refused. Of a snapshot the seal decides, and whether a wrong root is long
enough to be told. -/
theorem load_cases (E : Externals) (path : Option Bytes) :
    (∃ e, loadSnapshotStore E path = .err e) ∨ ∃ snap, readSnapshot E path = some snap ∧
      ((snap.Sealed E ∧ loadSnapshotStore E path = .ok snap.toStore) ∨
        (¬snap.Sealed E ∧ firstSixteen snap.stateRoot = none ∧ loadSnapshotStore E path = .panicked)) := by
  cases read : readSnapshot E path with
  | none => exact .inl (load_of_unread read)
  | some snap =>
      by_cases whole : snap.Sealed E
      · exact .inr ⟨snap, rfl, .inl ⟨whole, load_of_sealed read whole⟩⟩
      · obtain ⟨e, refused, -⟩ | ⟨panics, short⟩ := load_of_unsealed read whole
        · exact .inl ⟨e, refused⟩
        · exact .inr ⟨snap, rfl, .inr ⟨whole, short, panics⟩⟩

theorem load_ok_iff {store : StateStore} : loadSnapshotStore E path = .ok store ↔
    ∃ snap, readSnapshot E path = some snap ∧ snap.Sealed E ∧ snap.toStore = store := by
  constructor
  · intro loaded
    obtain ⟨e, refused⟩ | ⟨snap, read, ⟨whole, found⟩ | ⟨-, -, panics⟩⟩ := load_cases E path
    · cases loaded.symm.trans refused
    · cases loaded.symm.trans found
      exact ⟨snap, read, whole, rfl⟩
    · cases loaded.symm.trans panics
  · rintro ⟨snap, read, whole, rfl⟩
    exact load_of_sealed read whole

theorem load_panicked_iff : loadSnapshotStore E path = .panicked ↔
    ∃ snap, readSnapshot E path = some snap ∧ ¬snap.Sealed E ∧ firstSixteen snap.stateRoot = none := by
  constructor
  · intro loaded
    obtain ⟨e, refused⟩ | ⟨snap, read, ⟨-, found⟩ | ⟨broken, short, -⟩⟩ := load_cases E path
    · cases loaded.symm.trans refused
    · cases loaded.symm.trans found
    · exact ⟨snap, read, broken, short⟩
  · rintro ⟨snap, read, broken, short⟩
    obtain ⟨e, -, long⟩ | ⟨panics, -⟩ := load_of_unsealed read broken
    · exact absurd short long
    · exact panics

/-- The boundary is one that loads exactly if the file is no snapshot, names the genesis boundary, or
stores the root of its entries. -/
theorem boundary_loads_iff (disk : Disk) :
    (lastVerifiedBoundary E disk ≠ genesisBoundary E → ∃ store, loadSnapshotStore E disk.snapshot = .ok store ∧
      store.stateRoot E.shaHex = (lastVerifiedBoundary E disk).stateRoot) ↔
    ∀ snap, readSnapshot E disk.snapshot = some snap → snap.Sealed E ∨
      (snap.height = 0 ∧ snap.tipBlockHash = "" ∧ snap.stateRoot = StateStore.new.stateRoot E.shaHex) := by
  cases read : readSnapshot E disk.snapshot with
  | none =>
      obtain ⟨e, refused⟩ := meta_of_unread read
      rw [boundary_of_error refused]
      exact iff_of_true (fun other => absurd rfl other) fun snap h => by cases h
  | some snap =>
      rw [boundary_of_meta (meta_of_read read)]
      constructor
      · intro loads snap' same
        cases same
        by_cases named : snap.height = 0 ∧ snap.tipBlockHash = "" ∧
          snap.stateRoot = StateStore.new.stateRoot E.shaHex
        · exact .inr named
        · left
          obtain ⟨store, loaded, -⟩ := loads fun same => by
            rw [genesisBoundary, VerifiedBoundary.mk.injEq] at same
            exact named same
          obtain ⟨snap', read', whole, -⟩ := load_ok_iff.mp loaded
          rw [read] at read'
          cases read'
          exact whole
      · intro sound other
        obtain whole | ⟨height, tip, root⟩ := sound snap rfl
        · exact ⟨snap.toStore, load_of_sealed read whole, whole⟩
        · rw [height, tip, root] at other
          exact absurd rfl other

theorem boundary_of_unsealed (trip : E.snapshot.RoundTrips) {snap : PersistedSnapshot} (broken : ¬snap.Sealed E)
    (wal : Option Bytes) :
    lastVerifiedBoundary E ⟨wal, snapshotFile E snap⟩ = ⟨snap.height, snap.tipBlockHash, snap.stateRoot⟩ ∧
      ∀ store, loadSnapshotStore E (snapshotFile E snap) ≠ .ok store := by
  have read : readSnapshot E (snapshotFile E snap) = some snap := readSnapshot_file trip snap
  refine ⟨boundary_of_meta (meta_of_read read), fun store loaded => ?_⟩
  obtain ⟨snap', read', whole, -⟩ := load_ok_iff.mp loaded
  rw [read] at read'
  cases read'
  exact broken whole

theorem sealed_empty_iff (height : UInt64) (tip root : String) :
    (⟨height, tip, root, ∅⟩ : PersistedSnapshot).Sealed E ↔ emptyRoot = root := by
  have store : StateStore.ofEntries (∅ : BTreeMap String String).toList = .new := StateStore.ofEntries_toList .new
  unfold PersistedSnapshot.Sealed PersistedSnapshot.toStore
  rw [store]
  rfl

theorem not_sealed_genesisPrev (height : UInt64) (tip : String) :
    ¬(⟨height, tip, genesisPrev, ∅⟩ : PersistedSnapshot).Sealed E := by
  rw [sealed_empty_iff, emptyRoot, genesisPrev]
  simp

/-- A snapshot without entries claims a root of zeros. -/
theorem boundary_not_loaded :
    lastVerifiedBoundary jsonNode ⟨none, snapshotFile jsonNode ⟨5, "t", genesisPrev, ∅⟩⟩ = ⟨5, "t", genesisPrev⟩ ∧
      lastVerifiedBoundary jsonNode ⟨none, snapshotFile jsonNode ⟨5, "t", genesisPrev, ∅⟩⟩ ≠
        genesisBoundary jsonNode ∧
      ∀ store, loadSnapshotStore jsonNode (snapshotFile jsonNode ⟨5, "t", genesisPrev, ∅⟩) ≠ .ok store := by
  obtain ⟨boundary, refused⟩ := boundary_of_unsealed jsonNode_roundTrips (not_sealed_genesisPrev 5 "t") none
  refine ⟨boundary, fun same => ?_, refused⟩
  have height : (5 : UInt64) = 0 := congrArg VerifiedBoundary.height (boundary.symm.trans same)
  exact absurd height (by decide)

section Boot
variable {ops : List WalOp}

theorem recoveryBase_panics (marked : lastCheckpoint ops ≠ none) (panics : loadSnapshotStore E path = .panicked) :
    recoveryBase E ops path = .panicked := by
  cases last : lastCheckpoint ops with
  | none => exact absurd last marked
  | some marker => simp only [recoveryBase, last, panics]

/-- Where the loader does not panic in front of a marker, recovery finds a base. -/
theorem recoveryBase_finds (calm : ¬(lastCheckpoint ops ≠ none ∧ loadSnapshotStore E path = .panicked)) :
    ∃ base appliedFrom, recoveryBase E ops path = .ok (base, appliedFrom) ∧
      (¬AtMarker E ops path → base = .new ∧ appliedFrom = 0) := by
  unfold recoveryBase
  cases last : lastCheckpoint ops with
  | none => exact ⟨.new, 0, rfl, fun _ => ⟨rfl, rfl⟩⟩
  | some marker =>
      obtain ⟨height, tip, root⟩ := marker
      dsimp only
      cases loaded : loadSnapshotStore E path with
      | panicked =>
          rw [last] at calm
          exact absurd ⟨Option.some_ne_none _, loaded⟩ calm
      | err e => exact ⟨.new, 0, rfl, fun _ => ⟨rfl, rfl⟩⟩
      | ok store =>
          dsimp only
          split_ifs with hit
          · refine ⟨store, _, rfl, fun elsewhere => absurd ?_ elsewhere⟩
            obtain ⟨snap, read, whole, rfl⟩ := load_ok_iff.mp loaded
            unfold PersistedSnapshot.Sealed at whole
            exact ⟨snap, height, tip, read, whole, by rw [last, ← hit, whole]⟩
          · exact ⟨.new, 0, rfl, fun _ => ⟨rfl, rfl⟩⟩

/-- A valid log opens with the state it describes, exactly if it has no marker or the loader finds no wrong root
whose first 16 bytes it cannot cut off. -/
theorem boot_tolerates_iff (disk : Disk) {ops : List WalOp} (valid : readOps E disk.wal = .ok ops) :
    (∃ ps disk', openState E disk = .ok (ps, disk') ∧
      (¬AtMarker E ops disk.snapshot → ps.store = applyOps .new ops)) ↔
    ¬(lastCheckpoint ops ≠ none ∧ ∃ snap, readSnapshot E disk.snapshot = some snap ∧ ¬snap.Sealed E ∧
      firstSixteen snap.stateRoot = none) := by
  rw [← load_panicked_iff]
  constructor
  · intro ⟨ps, disk', opened, _⟩ ⟨marked, panics⟩
    simp only [openState, valid, recoveryBase_panics marked panics] at opened
    cases opened
  · intro calm
    obtain ⟨base, appliedFrom, found, fallback⟩ := recoveryBase_finds calm
    obtain ⟨log, file, behind⟩ := openLog_of_readOps valid
    refine ⟨⟨applyOps base (ops.drop appliedFrom), log⟩, { disk with wal := some file }, ?_, ?_⟩
    · simp only [openState, valid, found, behind]
    · intro elsewhere
      obtain ⟨rfl, rfl⟩ := fallback elsewhere
      rw [List.drop_zero]

theorem readOps_file (format : E.record.LineFormat) (ops : List WalOp) :
    readOps E (some (logFile E ops)) = .ok ops := by
  have written : Written E ⟨some (logFile E ops), none⟩ ops := rfl
  exact readOps_written format written

theorem boot_panics (format : E.record.LineFormat) (trip : E.snapshot.RoundTrips) {snap : PersistedSnapshot}
    (marked : lastCheckpoint ops ≠ none) (broken : ¬snap.Sealed E) (short : firstSixteen snap.stateRoot = none) :
    readOps E (some (logFile E ops)) = .ok ops ∧
      openState E ⟨some (logFile E ops), snapshotFile E snap⟩ = .panicked := by
  have valid := readOps_file format ops
  have panics : loadSnapshotStore E (snapshotFile E snap) = .panicked :=
    load_panicked_iff.mpr ⟨snap, readSnapshot_file trip snap, broken, short⟩
  refine ⟨valid, ?_⟩
  simp only [openState, valid, recoveryBase_panics marked panics]

theorem boot_tolerates (format : E.record.LineFormat) (trip : E.snapshot.RoundTrips) (ops : List WalOp)
    (snap : PersistedSnapshot) (long : firstSixteen snap.stateRoot ≠ none) :
    readOps E (some (logFile E ops)) = .ok ops ∧ ¬(lastCheckpoint ops ≠ none ∧
      ∃ snap', readSnapshot E (snapshotFile E snap) = some snap' ∧ ¬snap'.Sealed E ∧
        firstSixteen snap'.stateRoot = none) := by
  refine ⟨readOps_file format ops, ?_⟩
  rintro ⟨-, snap', read, -, short⟩
  rw [readSnapshot_file trip] at read
  cases read
  exact long short

end Boot

/-- One transaction, and a marker behind it. -/
def markedLog : List WalOp := [.apply (.set "a" "1"), .checkpoint 1 "t" genesisPrev]

theorem boot_with_wrong_root : ∃ ps disk',
    openState jsonNode ⟨some (logFile jsonNode markedLog), snapshotFile jsonNode ⟨5, "t", genesisPrev, ∅⟩⟩ =
        .ok (ps, disk') ∧
      (¬AtMarker jsonNode markedLog (snapshotFile jsonNode ⟨5, "t", genesisPrev, ∅⟩) →
        ps.store = applyOps .new markedLog) := by
  obtain ⟨valid, harmless⟩ := boot_tolerates jsonWal_format jsonNode_roundTrips markedLog ⟨5, "t", genesisPrev, ∅⟩
    (by decide +kernel)
  exact (boot_tolerates_iff ⟨some (logFile jsonNode markedLog), snapshotFile jsonNode ⟨5, "t", genesisPrev, ∅⟩⟩
    valid).mpr harmless

/-- A root of one byte is in the file. -/
theorem boot_panics_on_short_root :
    readOps jsonNode (some (logFile jsonNode markedLog)) = .ok markedLog ∧
      openState jsonNode ⟨some (logFile jsonNode markedLog), snapshotFile jsonNode ⟨5, "t", "x", ∅⟩⟩ =
        .panicked := by
  refine boot_panics jsonWal_format jsonNode_roundTrips (by decide) ?_ (by decide)
  rw [sealed_empty_iff, emptyRoot]
  simp

end KaiOs
