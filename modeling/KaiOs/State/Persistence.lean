import KaiOs.State.Wal

/-! `state/src/persistence.rs`: the snapshot file. Saving reads the file back, loading
recomputes the root. -/
namespace KaiOs
open Utf8

/-- A call that may also panic. -/
inductive Outcome (ε α : Type) where
  | ok (a : α)
  | err (e : ε)
  | panicked
  deriving DecidableEq

structure PersistedSnapshot where
  height : UInt64
  tipBlockHash : String
  stateRoot : String
  entries : BTreeMap String String

structure Externals extends WalExternals where
  /-- The pretty form, as `to_string_pretty` writes it. -/
  snapshot : Codec PersistedSnapshot

/-- How `fs::write` ends: it empties or creates the file first. -/
inductive WriteIo where
  | ok
  | createFails
  | writeFails (written : ℕ)
  deriving DecidableEq

section
variable (E : Externals)

namespace PersistedSnapshot

def fromStore (store : StateStore) (height : UInt64) (tipBlockHash : String) : PersistedSnapshot where
  height := height
  tipBlockHash := tipBlockHash
  stateRoot := store.stateRoot E.shaHex
  entries := store.entries

def toStore (snap : PersistedSnapshot) : StateStore := .ofEntries snap.entries.toList

end PersistedSnapshot

/-- The slice `&s[..16]` of the error message. Slicing a shorter text panics, and so does
slicing inside a character. -/
def firstSixteen (s : String) : Option String :=
  if 16 ≤ (utf8 s).length then decode ((utf8 s).take 16) else none

/-- `load_snapshot_store` on a path; `none` is a path without a file. -/
def loadSnapshotStore : Option Bytes → Outcome IoError StateStore
  | none => .err .notFound
  | some raw => match decode raw with
    | none => .err .invalidData
    | some text => match E.snapshot.parse text with
      | none => .err .parse
      | some snap =>
          let store := snap.toStore
          if store.stateRoot E.shaHex ≠ snap.stateRoot then
            match firstSixteen snap.stateRoot with
            | none => .panicked
            | some front =>
                .err (.other ("load-verify failed: gespeicherter Root " ++ front ++ " weicht ab"))
          else .ok store

/-- The bytes of a snapshot file. -/
def snapshotBytes (store : StateStore) (height : UInt64) (tipBlockHash : String) : Bytes :=
  utf8 (E.snapshot.text (.fromStore E store height tipBlockHash))

/-- `save_snapshot_store`, with the file it leaves. -/
def saveSnapshotStore (store : StateStore) (height : UInt64) (tipBlockHash : String)
    (path : Option Bytes) (io : WriteIo) : Option Bytes × Outcome IoError Unit :=
  match io with
  | .createFails => (path, .err .failed)
  | .writeFails written =>
      (some ((snapshotBytes E store height tipBlockHash).take written), .err .failed)
  | .ok =>
      let file := some (snapshotBytes E store height tipBlockHash)
      match loadSnapshotStore E file with
      | .ok reread =>
          if reread.stateRoot E.shaHex ≠ store.stateRoot E.shaHex then
            (file, .err (.other "write-verify failed: state-root weicht nach Rücklesen ab"))
          else (file, .ok ())
      | .err e => (file, .err e)
      | .panicked => (file, .panicked)

/-- `snapshot_meta`: height, tip and root without rebuilding the state. -/
def snapshotMeta : Option Bytes → Except IoError (UInt64 × String × String)
  | none => .error .notFound
  | some raw => match decode raw with
    | none => .error .invalidData
    | some text => match E.snapshot.parse text with
      | none => .error .parse
      | some snap => .ok (snap.height, snap.tipBlockHash, snap.stateRoot)

end

variable {E : Externals}

@[simp] theorem toStore_fromStore (store : StateStore) (height : UInt64) (tip : String) :
    (PersistedSnapshot.fromStore E store height tip).toStore = store :=
  StateStore.ofEntries_toList store

@[simp] theorem fromStore_stateRoot (store : StateStore) (height : UInt64) (tip : String) :
    (PersistedSnapshot.fromStore E store height tip).stateRoot = store.stateRoot E.shaHex := rfl

theorem load_saved (trip : E.snapshot.RoundTrips) (store : StateStore) (height : UInt64)
    (tip : String) : loadSnapshotStore E (some (snapshotBytes E store height tip)) = .ok store := by
  simp only [loadSnapshotStore, snapshotBytes, decode_utf8, trip _, toStore_fromStore,
    fromStore_stateRoot, ne_eq, not_true_eq_false, ↓reduceIte]

theorem save_ok (trip : E.snapshot.RoundTrips) (store : StateStore) (height : UInt64)
    (tip : String) (path : Option Bytes) :
    saveSnapshotStore E store height tip path .ok =
      (some (snapshotBytes E store height tip), .ok ()) := by
  simp only [saveSnapshotStore, load_saved trip, ne_eq, not_true_eq_false, ↓reduceIte]

theorem meta_saved (trip : E.snapshot.RoundTrips) (store : StateStore) (height : UInt64)
    (tip : String) : snapshotMeta E (some (snapshotBytes E store height tip)) =
      .ok (height, tip, store.stateRoot E.shaHex) := by
  simp only [snapshotMeta, snapshotBytes, decode_utf8, trip _]
  rfl

theorem meta_cut (prefixes : E.snapshot.RejectsPrefixes) (empty : E.snapshot.RejectsEmpty)
    {store : StateStore} {height : UInt64} {tip : String} {n : ℕ}
    (short : n < (snapshotBytes E store height tip).length) :
    ∃ e, snapshotMeta E (some ((snapshotBytes E store height tip).take n)) = .error e := by
  unfold snapshotBytes at short ⊢
  cases found : decode ((utf8 (E.snapshot.text (.fromStore E store height tip))).take n) with
  | none => exact ⟨.invalidData, by simp only [snapshotMeta, found]⟩
  | some t =>
      obtain ⟨u, same, rest⟩ := decode_prefix (List.take_append_drop n _) found
      have more : u ≠ "" := by
        rintro rfl
        have nothing := congrArg List.length rest
        rw [List.length_drop, utf8_empty, List.length_nil] at nothing
        omega
      have refused : E.snapshot.parse t = none := by
        by_cases begun : t = ""
        · rw [begun]
          exact empty
        · exact prefixes _ t u same begun more
      exact ⟨.parse, by simp only [snapshotMeta, found, refused]⟩

/-- The two readers refuse the same texts. -/
theorem load_of_meta {path : Option Bytes} {e : IoError} (refused : snapshotMeta E path = .error e) :
    loadSnapshotStore E path = .err e := by
  cases path with
  | none =>
      cases refused
      rfl
  | some raw =>
      cases found : decode raw with
      | none =>
          simp only [snapshotMeta, found] at refused
          cases refused
          simp only [loadSnapshotStore, found]
      | some text =>
          cases read : E.snapshot.parse text with
          | none =>
              simp only [snapshotMeta, found, read] at refused
              cases refused
              simp only [loadSnapshotStore, found, read]
          | some snap =>
              simp only [snapshotMeta, found, read] at refused
              cases refused

theorem load_cut (prefixes : E.snapshot.RejectsPrefixes) (empty : E.snapshot.RejectsEmpty)
    {store : StateStore} {height : UInt64} {tip : String} {n : ℕ}
    (short : n < (snapshotBytes E store height tip).length) :
    ∃ e, loadSnapshotStore E (some ((snapshotBytes E store height tip).take n)) = .err e := by
  obtain ⟨e, refused⟩ := meta_cut prefixes empty short
  exact ⟨e, load_of_meta refused⟩

end KaiOs
