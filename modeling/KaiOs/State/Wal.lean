import KaiOs.Lib.Codec
import KaiOs.Lib.HashChain
import KaiOs.Lib.Lines
import KaiOs.State.Store

/-! `state/src/wal.rs`: the write-ahead log. The log file is its byte content; a handle
holds what the next record is chained to. The hash function and `serde_json` are
parameters. -/
namespace KaiOs
open Utf8 Lines

inductive WalOp where
  | apply (tx : Tx)
  | checkpoint (height : UInt64) (tipBlockHash stateRoot : String)
  deriving DecidableEq

structure WalRecord where
  seq : UInt64
  prevHash : String
  op : WalOp
  deriving DecidableEq

/-- What the log takes from other packages. -/
structure WalExternals where
  shaHex : String → String
  opText : WalOp → String
  record : Codec WalRecord

/-- `std::io::Error`, by its kind where the code makes a difference. -/
inductive IoError where
  | notFound
  | invalidData
  | failed
  | parse
  | other (message : String)
  deriving DecidableEq

inductive WalError where
  | io (e : IoError)
  | chainBroken (line : ℕ) (expected got : String)
  | malformedRecord (line : ℕ)
  deriving DecidableEq

def genesisPrev : String := "0000000000000000000000000000000000000000000000000000000000000000"

/-- The handle of an open log without its path and file. -/
structure WriteAheadLog where
  seq : UInt64
  prevHash : String
  deriving DecidableEq

/-- `char::is_whitespace`: the Unicode property `White_Space`. -/
def isWhitespace (c : Char) : Bool :=
  (9 ≤ c.val && c.val ≤ 13) || c.val = 0x20 || c.val = 0x85 || c.val = 0xA0 || c.val = 0x1680 ||
    (0x2000 ≤ c.val && c.val ≤ 0x200A) || c.val = 0x2028 || c.val = 0x2029 || c.val = 0x202F ||
    c.val = 0x205F || c.val = 0x3000

/-- `line.trim().is_empty()` -/
def isBlank (line : String) : Bool := line.toList.all isWhitespace

section
variable (E : WalExternals)

def WalRecord.payload (r : WalRecord) : String :=
  toString r.seq.toNat ++ "|" ++ (r.prevHash ++ "|" ++ E.opText r.op)

def WalRecord.hash (r : WalRecord) : String := E.shaHex (r.payload E)

namespace WriteAheadLog

/-- The handle of a fresh log. -/
def genesis : WriteAheadLog := ⟨0, genesisPrev⟩

/-- The second look at the file: it counts the lines, unreadable ones included. -/
def isLastLine (file : Bytes) (lineNo : ℕ) : Bool := (lines file).length ≤ lineNo

/-- The loop of `replay`, with the variables it carries from line to line. -/
def replayFrom (file : Bytes) (lineNo : ℕ) (ops : List WalOp) (seq : UInt64) (prevHash : String) :
    List (Option String) → Except WalError (List WalOp × UInt64 × String)
  | [] => .ok (ops, seq, prevHash)
  | none :: _ => .error (.io .invalidData)
  | some line :: rest =>
      if isBlank line then replayFrom file (lineNo + 1) ops seq prevHash rest
      else match E.record.parse line with
        | none =>
            if isLastLine file (lineNo + 1) then .ok (ops, seq, prevHash)
            else .error (.malformedRecord (lineNo + 1))
        | some record =>
            if record.seq ≠ seq + 1 then
              .error (.chainBroken (lineNo + 1) ("seq " ++ toString (seq + 1).toNat)
                ("seq " ++ toString record.seq.toNat))
            else if record.prevHash ≠ prevHash then
              .error (.chainBroken (lineNo + 1) prevHash record.prevHash)
            else replayFrom file (lineNo + 1) (ops ++ [record.op]) record.seq (record.hash E) rest

/-- `replay` on a path; `none` is a path without a file. -/
def replay : Option Bytes → Except WalError (List WalOp × UInt64 × String)
  | none => .error (.io .notFound)
  | some file => replayFrom E file 0 [] 0 genesisPrev (lines file)

def scanTail : Option Bytes → Except WalError (UInt64 × String)
  | none => .ok (0, genesisPrev)
  | some file => do
      let (_, seq, prevHash) ← replay E (some file)
      return (seq, prevHash)

/-- `open`: the handle, and the file, which is created where it was missing. -/
def openLog (path : Option Bytes) : Except WalError (WriteAheadLog × Bytes) := do
  let (seq, prevHash) ← scanTail E path
  return (⟨seq, prevHash⟩, path.getD [])

/-- How the two file operations of an append end. -/
inductive AppendIo where
  | ok
  | writeFails (written : ℕ)
  | syncFails
  deriving DecidableEq

def nextRecord (wal : WriteAheadLog) (op : WalOp) : WalRecord := ⟨wal.seq + 1, wal.prevHash, op⟩

/-- The bytes `writeln!` hands to the file. -/
def recordLine (r : WalRecord) : Bytes := utf8 (E.record.text r) ++ [10]

/-- `append_op`: the counter is advanced first, `prev_hash` only behind both file operations. -/
def appendOp (wal : WriteAheadLog) (file : Bytes) (op : WalOp) (io : AppendIo) :
    WriteAheadLog × Bytes × Except WalError UInt64 :=
  let record := nextRecord wal op
  match io with
  | .writeFails written =>
      ({ wal with seq := record.seq }, file ++ (recordLine E record).take written,
        .error (.io .failed))
  | .syncFails => ({ wal with seq := record.seq }, file ++ recordLine E record, .error (.io .failed))
  | .ok => (⟨record.seq, record.hash E⟩, file ++ recordLine E record, .ok record.seq)

def append (wal : WriteAheadLog) (file : Bytes) (tx : Tx) (io : AppendIo) :
    WriteAheadLog × Bytes × Except WalError UInt64 :=
  appendOp E wal file (.apply tx) io

end WriteAheadLog
end
end KaiOs
