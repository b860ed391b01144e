import KaiOs.Ai.Audit
import KaiOs.State.WalJson
import Mathlib.Logic.Function.Basic

/-! `node/src/audit.rs`: the audit log of the daemon. Events are kept in memory as a hash chain
and appended to a file, one JSON record a line. -/
namespace KaiOs.Node
open Utf8 Lines SealedChain

def genesisHash : String := "0000000000000000000000000000000000000000000000000000000000000000"

structure AuditEvent where
  seq : UInt64
  kind : String
  detail : String
  prevHash : String
  hash : String
  deriving DecidableEq

def hashText (seq : UInt64) (kind detail prevHash : String) : String := s!"{seq}|{kind}|{detail}|{prevHash}"

namespace AuditEvent

/-- Where an event has what the chain is made of. -/
def layout : SealedChain.Layout AuditEvent :=
  ⟨seq, prevHash, hash, fun e => hashText e.seq e.kind e.detail e.prevHash⟩

/-- What a call brings along. -/
def fields (e : AuditEvent) : List String := [e.kind, e.detail]

theorem joins : layout.Joins "|" 2 fields where
  text e := by
    simp only [layout, hashText, fields, String.intercalate_cons_cons, String.intercalate_singleton,
      String.append_assoc]
    rfl
  several := by decide
  length _ := rfl
  refill e ys full := by
    obtain ⟨kind, detail, rfl⟩ := List.length_eq_two.mp full
    exact ⟨⟨e.seq, kind, detail, e.prevHash, e.hash⟩, rfl, rfl, rfl, rfl⟩
  ext x y number link hash same := by
    cases x
    cases y
    simp_all [layout, fields]

end AuditEvent

/-- What the crate takes from other packages. -/
structure AuditExternals where
  shaHex : String → String
  event : Codec AuditEvent

/-- The contents of the files by their paths. -/
abbrev Files (Path : Type) := Path → Option Bytes

/-- How the file operations of `record` end. -/
inductive SinkIo where
  | ok
  | openFails
  | writeFails (written : ℕ)
  deriving DecidableEq

structure AuditLogger (Path : Type) where
  events : List AuditEvent
  sink : Option Path

section
variable {Path : Type} (X : AuditExternals)

/-- A file opened with `create` and `append`, behind one write. -/
def Files.append [DecidableEq Path] (files : Files Path) (path : Path) (bytes : Bytes) : Files Path :=
  Function.update files path (some ((files path).getD [] ++ bytes))

namespace AuditLogger

def inMemory : AuditLogger Path := ⟨[], none⟩

/-- `to_file`, by how making the directory ends. -/
def toFile (made : Except IoError Unit) (path : Path) : Except IoError (AuditLogger Path) := do
  made
  return ⟨[], some path⟩

def nextEvent (a : AuditLogger Path) (kind detail : String) : AuditEvent :=
  let seq := UInt64.ofNat a.events.length + 1
  let prevHash := (a.events.getLast?.map (·.hash)).getD genesisHash
  ⟨seq, kind, detail, prevHash, X.shaHex (hashText seq kind detail prevHash)⟩

/-- `record`: an event that cannot be written is not kept either. -/
def record [DecidableEq Path] (a : AuditLogger Path) (files : Files Path) (io : SinkIo) (kind detail : String) :
    Except IoError AuditEvent × AuditLogger Path × Files Path :=
  let event := a.nextEvent X kind detail
  let pushed : AuditLogger Path := { a with events := a.events ++ [event] }
  match a.sink with
  | none => (.ok event, pushed, files)
  | some path =>
      match io with
      | .openFails => (.error .failed, a, files)
      | .writeFails written => (.error .failed, a, files.append path ((X.event.line event).take written))
      | .ok => (.ok event, pushed, files.append path (X.event.line event))

/-- `verify_chain`, whose loop recomputes the chain. -/
def verifyChain (a : AuditLogger Path) : Bool :=
  AuditEvent.layout.checkFrom X.shaHex 0 genesisHash a.events

/-- Whether a call that ends like this is recorded. -/
def records (a : AuditLogger Path) (io : SinkIo) : Bool := a.sink.isNone || decide (io = .ok)

end AuditLogger

/-- A call of `record`. -/
structure RecordCall where
  io : SinkIo
  kind : String
  detail : String

namespace AuditLogger

def recordAll [DecidableEq Path] (a : AuditLogger Path) (files : Files Path) :
    List RecordCall → AuditLogger Path × Files Path
  | [] => (a, files)
  | call :: calls =>
      let taken := a.record X files call.io call.kind call.detail
      taken.2.1.recordAll taken.2.2 calls

variable {X}

theorem verifyChain_iff (a : AuditLogger Path) :
    a.verifyChain X = true ↔ AuditEvent.layout.Sealed X.shaHex 0 genesisHash a.events :=
  checkFrom_iff 0 genesisHash a.events

theorem nextEvent_sealed (a : AuditLogger Path) (kind detail : String) :
    AuditEvent.layout.SealedAt X.shaHex (0 + a.events.length)
      (HashChain.tip AuditEvent.layout.hash genesisHash a.events) (a.nextEvent X kind detail) where
  number := by
    rw [Nat.zero_add]
    rfl
  link := (HashChain.tip_eq_getLast? _ _ _).symm
  stamp := rfl

section
variable [DecidableEq Path]

theorem record_next (a : AuditLogger Path) (files : Files Path) (io : SinkIo) (kind detail : String) :
    (a.record X files io kind detail).2.1 =
      if a.records io then { a with events := a.events ++ [a.nextEvent X kind detail] } else a := by
  obtain ⟨events, sink⟩ := a
  cases sink with
  | none => rfl
  | some path => cases io <;> rfl

theorem verifyChain_record {a : AuditLogger Path} (h : a.verifyChain X = true) (files : Files Path)
    (io : SinkIo) (kind detail : String) :
    (a.record X files io kind detail).2.1.verifyChain X = true := by
  rw [record_next]
  split
  · rw [verifyChain_iff] at h ⊢
    exact (sealed_concat 0 genesisHash a.events _).mpr ⟨h, a.nextEvent_sealed kind detail⟩
  · exact h

theorem verifyChain_recordAll {a : AuditLogger Path} (h : a.verifyChain X = true) (files : Files Path)
    (calls : List RecordCall) : (a.recordAll X files calls).1.verifyChain X = true := by
  induction calls generalizing a files with
  | nil => exact h
  | cons call calls ih => exact ih (verifyChain_record h files call.io call.kind call.detail) _

theorem recordAll_fields (a : AuditLogger Path) (files : Files Path) (calls : List RecordCall) :
    (a.recordAll X files calls).1.events.map AuditEvent.fields = a.events.map AuditEvent.fields ++
      (calls.filter fun call => a.records call.io).map fun call => [call.kind, call.detail] := by
  induction calls generalizing a files with
  | nil => exact (List.append_nil _).symm
  | cons call calls ih =>
      have step : (a.recordAll X files (call :: calls)).1.events.map AuditEvent.fields = _ :=
        ih (a.record X files call.io call.kind call.detail).2.1 _
      rw [step, record_next, List.filter_cons]
      split_ifs with kept
      · rw [List.map_append, List.append_assoc]
        rfl
      · rfl

/-- Of the verified logs of its length, a recorded one is the only one with its last hash exactly
when no recorded call brought a separator. -/
theorem recordAll_unique_iff (sink : Option Path) (files : Files Path) (calls : List RecordCall)
    (hex : ∀ t, Fields.Free '|' (X.shaHex t))
    (unmatched : Signature.Unmatched X.shaHex
      {t | ∃ e ∈ (recordAll X ⟨[], sink⟩ files calls).1.events, AuditEvent.layout.text e = t}) :
    (∀ b : AuditLogger Path, b.verifyChain X = true →
      b.events.length = (recordAll X ⟨[], sink⟩ files calls).1.events.length →
      b.events.getLast?.map (·.hash) =
        (recordAll X ⟨[], sink⟩ files calls).1.events.getLast?.map (·.hash) →
      b.events = (recordAll X ⟨[], sink⟩ files calls).1.events) ↔
    ∀ call ∈ calls, records ⟨[], sink⟩ call.io → Fields.Free '|' call.kind ∧ Fields.Free '|' call.detail := by
  have chain := (verifyChain_iff _).mp (verifyChain_recordAll (X := X) (a := ⟨[], sink⟩) rfl files calls)
  have recorded := recordAll_fields (X := X) ⟨[], sink⟩ files calls
  have binds := AuditEvent.joins.tamper_evident_iff (c := '|') rfl (by decide) hex unmatched chain
  have brought : (∀ e ∈ (recordAll X ⟨[], sink⟩ files calls).1.events, ∀ f ∈ e.fields, Fields.Free '|' f) ↔
      ∀ call ∈ calls, records ⟨[], sink⟩ call.io →
        Fields.Free '|' call.kind ∧ Fields.Free '|' call.detail := by
    rw [← List.forall_mem_map (f := AuditEvent.fields) (P := fun fs => ∀ f ∈ fs, Fields.Free '|' f), recorded,
      List.map_nil, List.nil_append, List.forall_mem_map]
    simp only [List.mem_filter, List.forall_mem_cons, List.not_mem_nil, false_implies, implies_true, and_true,
      and_imp]
  rw [← brought, ← binds]
  constructor
  · intro unique es sealed
    exact unique ⟨es, sink⟩ ((verifyChain_iff _).mpr sealed)
  · intro unique b verified
    exact unique b.events ((verifyChain_iff b).mp verified)

end
end AuditLogger
end
end KaiOs.Node
