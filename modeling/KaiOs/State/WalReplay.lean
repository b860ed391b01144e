import KaiOs.State.Wal

/-! What `replay` accepts. `Reads` is the meaning of a log file as a list of records,
`chain` is what a handle writes for a list of ops; a replay succeeds exactly on the
files whose records are a chain from genesis. -/
namespace KaiOs
open Utf8 Lines

section
variable (E : WalExternals)

/-- Lines that are all blank or records, with the records. -/
inductive Whole : List (Option String) → List WalRecord → Prop where
  | nil : Whole [] []
  | blank {line rest rs} : isBlank line = true → Whole rest rs → Whole (some line :: rest) rs
  | record {line rest rs r} : isBlank line = false → E.record.parse line = some r →
      Whole rest rs → Whole (some line :: rest) (r :: rs)

/-- Lines as `replay` reads them: only the last one may be unreadable. -/
inductive Reads : List (Option String) → List WalRecord → Prop where
  | nil : Reads [] []
  | blank {line rest rs} : isBlank line = true → Reads rest rs → Reads (some line :: rest) rs
  | record {line rest rs r} : isBlank line = false → E.record.parse line = some r →
      Reads rest rs → Reads (some line :: rest) (r :: rs)
  | torn {line} : isBlank line = false → E.record.parse line = none → Reads [some line] []

namespace WriteAheadLog

/-- The handle behind one more record. -/
def next (wal : WriteAheadLog) (op : WalOp) : WriteAheadLog :=
  ⟨wal.seq + 1, (wal.nextRecord op).hash E⟩

def advance (wal : WriteAheadLog) (ops : List WalOp) : WriteAheadLog := ops.foldl (next E) wal

/-- The records a handle writes for a list of ops. -/
def chain (wal : WriteAheadLog) : List WalOp → List WalRecord
  | [] => []
  | op :: ops => wal.nextRecord op :: (wal.next E op).chain ops

/-- The bytes of a list of records. -/
def logBytes (rs : List WalRecord) : Bytes := rs.flatMap (recordLine E)

end WriteAheadLog
end

variable {E : WalExternals}
open WriteAheadLog

namespace WriteAheadLog

@[simp] theorem advance_nil (wal : WriteAheadLog) : wal.advance E [] = wal := rfl

@[simp] theorem advance_cons (wal : WriteAheadLog) (op : WalOp) (ops : List WalOp) :
    wal.advance E (op :: ops) = (wal.next E op).advance E ops := rfl

@[simp] theorem advance_append (wal : WriteAheadLog) (ops more : List WalOp) :
    wal.advance E (ops ++ more) = (wal.advance E ops).advance E more := List.foldl_append

theorem chain_append (wal : WriteAheadLog) (ops more : List WalOp) :
    wal.chain E (ops ++ more) = wal.chain E ops ++ (wal.advance E ops).chain E more := by
  induction ops generalizing wal with
  | nil => rfl
  | cons op ops ih => rw [List.cons_append, chain, ih]; rfl

@[simp] theorem chain_ops (wal : WriteAheadLog) (ops : List WalOp) :
    (wal.chain E ops).map WalRecord.op = ops := by
  induction ops generalizing wal with
  | nil => rfl
  | cons op ops ih => rw [chain, List.map_cons, ih]; rfl

theorem chain_take (wal : WriteAheadLog) (ops : List WalOp) (m : ℕ) :
    (wal.chain E ops).take m = wal.chain E (ops.take m) := by
  induction ops generalizing wal m with
  | nil => rw [List.take_nil, chain, List.take_nil]
  | cons op ops ih =>
      cases m with
      | zero => rfl
      | succ m => rw [List.take_succ_cons, chain, chain, List.take_succ_cons, ih]

theorem chain_inj {wal : WriteAheadLog} {ops ops' : List WalOp}
    (same : wal.chain E ops = wal.chain E ops') : ops = ops' := by
  rw [← chain_ops (E := E) wal ops, same, chain_ops]

theorem chain_eq_nil {wal : WriteAheadLog} {ops : List WalOp} : wal.chain E ops = [] ↔ ops = [] := by
  cases ops with
  | nil => exact iff_of_true rfl rfl
  | cons op ops => exact iff_of_false (by simp only [chain, reduceCtorEq, not_false_eq_true]) (by simp)

/-- A chain starts with the record that names its handle's position. -/
theorem chain_eq_cons {wal : WriteAheadLog} {ops : List WalOp} {r : WalRecord} {rs : List WalRecord} :
    wal.chain E ops = r :: rs ↔
      ∃ more, ops = r.op :: more ∧ r = wal.nextRecord r.op ∧ (wal.next E r.op).chain E more = rs := by
  constructor
  · intro same
    cases ops with
    | nil => cases same
    | cons op ops =>
        cases same
        exact ⟨ops, rfl, rfl, rfl⟩
  · rintro ⟨more, rfl, named, rfl⟩
    conv_rhs => rw [named]
    rfl

theorem logBytes_append (rs more : List WalRecord) :
    logBytes E (rs ++ more) = logBytes E rs ++ logBytes E more := List.flatMap_append

end WriteAheadLog

theorem Whole.append {ls ls' : List (Option String)} {rs rs' : List WalRecord}
    (h : Whole E ls rs) (h' : Whole E ls' rs') : Whole E (ls ++ ls') (rs ++ rs') := by
  induction h with
  | nil => exact h'
  | blank blank _ ih => exact .blank blank ih
  | record solid parsed _ ih => exact .record solid parsed ih

theorem Whole.reads_append {ls ls' : List (Option String)} {rs rs' : List WalRecord}
    (h : Whole E ls rs) (h' : Reads E ls' rs') : Reads E (ls ++ ls') (rs ++ rs') := by
  induction h with
  | nil => exact h'
  | blank blank _ ih => exact .blank blank ih
  | record solid parsed _ ih => exact .record solid parsed ih

theorem Whole.reads {ls : List (Option String)} {rs : List WalRecord} (h : Whole E ls rs) :
    Reads E ls rs := by
  simpa only [List.append_nil] using h.reads_append .nil

theorem Reads.split {ls ls' : List (Option String)} {rs : List WalRecord}
    (h : Reads E (ls ++ ls') rs) (more : ls' ≠ []) :
    ∃ front back, rs = front ++ back ∧ Whole E ls front ∧ Reads E ls' back := by
  induction ls generalizing rs with
  | nil => exact ⟨[], rs, rfl, .nil, h⟩
  | cons l ls ih =>
      rw [List.cons_append] at h
      generalize joined : ls ++ ls' = rest at h
      cases h with
      | blank blank tail =>
          obtain ⟨front, back, same, whole, reads⟩ := ih (joined ▸ tail)
          exact ⟨front, back, same, .blank blank whole, reads⟩
      | record solid parsed tail =>
          obtain ⟨front, back, rfl, whole, reads⟩ := ih (joined ▸ tail)
          exact ⟨_ :: front, back, rfl, .record solid parsed whole, reads⟩
      | torn => exact absurd (List.append_eq_nil_iff.mp joined).2 more

theorem reads_unreadable {ls : List (Option String)} {rs : List WalRecord} :
    ¬ Reads E (none :: ls) rs := by
  intro h
  cases h

theorem reads_blank {line : String} {ls : List (Option String)} {rs : List WalRecord}
    (blank : isBlank line = true) : Reads E (some line :: ls) rs ↔ Reads E ls rs := by
  refine ⟨fun h => ?_, .blank blank⟩
  cases h with
  | blank _ rest => exact rest
  | record solid _ _ => exact nomatch blank.symm.trans solid
  | torn solid _ => exact nomatch blank.symm.trans solid

theorem reads_record {line : String} {ls : List (Option String)} {rs : List WalRecord}
    {r : WalRecord} (solid : isBlank line = false) (parsed : E.record.parse line = some r) :
    Reads E (some line :: ls) rs ↔ ∃ more, rs = r :: more ∧ Reads E ls more := by
  constructor
  · intro h
    cases h with
    | blank blank _ => exact nomatch blank.symm.trans solid
    | record _ parsed' rest =>
        cases parsed.symm.trans parsed'
        exact ⟨_, rfl, rest⟩
    | torn _ unparsed => exact nomatch parsed.symm.trans unparsed
  · rintro ⟨more, rfl, rest⟩
    exact .record solid parsed rest

theorem reads_torn {line : String} {ls : List (Option String)} {rs : List WalRecord}
    (solid : isBlank line = false) (unparsed : E.record.parse line = none) :
    Reads E (some line :: ls) rs ↔ ls = [] ∧ rs = [] := by
  constructor
  · intro h
    cases h with
    | blank blank _ => exact nomatch blank.symm.trans solid
    | record _ parsed _ => exact nomatch parsed.symm.trans unparsed
    | torn _ _ => exact ⟨rfl, rfl⟩
  · rintro ⟨rfl, rfl⟩
    exact .torn solid unparsed

theorem Reads.unique {ls : List (Option String)} {rs rs' : List WalRecord} (h : Reads E ls rs)
    (h' : Reads E ls rs') : rs = rs' := by
  induction h generalizing rs' with
  | nil =>
      cases h'
      rfl
  | blank blank _ ih => exact ih ((reads_blank blank).mp h')
  | record solid parsed _ ih =>
      obtain ⟨more, rfl, rest⟩ := (reads_record solid parsed).mp h'
      rw [ih rest]
  | torn solid unparsed => exact ((reads_torn solid unparsed).mp h').2.symm

theorem Reads.single {l : Option String} {rs : List WalRecord} (h : Reads E [l] rs) :
    rs = [] ∨ ∃ line r, l = some line ∧ E.record.parse line = some r ∧ rs = [r] := by
  cases h with
  | blank _ rest =>
      cases rest
      exact .inl rfl
  | record _ parsed rest =>
      cases rest
      exact .inr ⟨_, _, rfl, parsed, rfl⟩
  | torn => exact .inl rfl

theorem replayFrom_torn {file : Bytes} {line : String} {ls : List (Option String)} {lineNo : ℕ}
    {ops : List WalOp} {wal : WriteAheadLog} (solid : isBlank line = false)
    (unparsed : E.record.parse line = none) :
    replayFrom E file lineNo ops wal.seq wal.prevHash (some line :: ls) =
      if isLastLine file (lineNo + 1) then .ok (ops, wal.seq, wal.prevHash)
      else .error (.malformedRecord (lineNo + 1)) := by
  simp only [replayFrom, solid, unparsed, Bool.false_eq_true, ↓reduceIte]

theorem replayFrom_record {file : Bytes} {line : String} {ls : List (Option String)} {lineNo : ℕ}
    {ops : List WalOp} {wal : WriteAheadLog} {r : WalRecord} (solid : isBlank line = false)
    (parsed : E.record.parse line = some r) (named : r = wal.nextRecord r.op) :
    replayFrom E file lineNo ops wal.seq wal.prevHash (some line :: ls) =
      replayFrom E file (lineNo + 1) (ops ++ [r.op]) (wal.next E r.op).seq
        (wal.next E r.op).prevHash ls := by
  rw [replayFrom]
  simp only [solid, parsed, Bool.false_eq_true, ↓reduceIte]
  have seq : r.seq = wal.seq + 1 := congrArg WalRecord.seq named
  have prev : r.prevHash = wal.prevHash := congrArg WalRecord.prevHash named
  rw [if_neg (not_not_intro seq), if_neg (not_not_intro prev), next, ← named, seq]

theorem replayFrom_broken {file : Bytes} {line : String} {ls : List (Option String)} {lineNo : ℕ}
    {ops : List WalOp} {wal : WriteAheadLog} {r : WalRecord} (solid : isBlank line = false)
    (parsed : E.record.parse line = some r) (other : r ≠ wal.nextRecord r.op) :
    ∃ expected got, replayFrom E file lineNo ops wal.seq wal.prevHash (some line :: ls) =
      .error (.chainBroken (lineNo + 1) expected got) := by
  rw [replayFrom]
  simp only [solid, parsed, Bool.false_eq_true, ↓reduceIte]
  split_ifs with seq prev
  · exact ⟨_, _, rfl⟩
  · exact ⟨_, _, rfl⟩
  · refine absurd ?_ other
    obtain ⟨seq', prev', op⟩ := r
    exact WalRecord.mk.injEq .. ▸ ⟨not_not.mp seq, not_not.mp prev, rfl⟩

theorem replayFrom_iff {file : Bytes} {ls : List (Option String)} {lineNo : ℕ} {ops out : List WalOp}
    {wal wal' : WriteAheadLog} (count : (lines file).length = lineNo + ls.length) :
    replayFrom E file lineNo ops wal.seq wal.prevHash ls = .ok (out, wal'.seq, wal'.prevHash) ↔
      ∃ more, out = ops ++ more ∧ Reads E ls (wal.chain E more) ∧ wal' = wal.advance E more := by
  induction ls generalizing lineNo ops wal with
  | nil =>
      constructor
      · intro ok
        cases wal
        cases wal'
        cases ok
        exact ⟨[], (List.append_nil _).symm, .nil, rfl⟩
      · rintro ⟨more, rfl, reads, rfl⟩
        cases more with
        | nil => rw [List.append_nil]; rfl
        | cons op more => cases reads
  | cons l ls ih =>
      have count' : (lines file).length = lineNo + 1 + ls.length := by
        rw [count, List.length_cons]
        omega
      cases l with
      | none =>
          simp only [replayFrom, reads_unreadable, reduceCtorEq, false_and, and_false, exists_false]
      | some line =>
          cases blank : isBlank line with
          | true =>
              rw [replayFrom, if_pos blank, ih count']
              simp only [reads_blank blank]
          | false =>
              cases parsed : E.record.parse line with
              | none =>
                  simp only [reads_torn blank parsed, chain_eq_nil]
                  rw [replayFrom_torn blank parsed, isLastLine, count']
                  cases ls with
                  | nil =>
                      cases wal
                      cases wal'
                      simp [eq_comm]
                  | cons l ls =>
                      rw [if_neg (by simp)]
                      simp
              | some r =>
                  simp only [reads_record blank parsed, chain_eq_cons]
                  by_cases named : r = wal.nextRecord r.op
                  · rw [replayFrom_record blank parsed named, ih count']
                    constructor
                    · rintro ⟨more, rfl, reads, rfl⟩
                      exact ⟨r.op :: more, (List.append_cons ..).symm,
                        ⟨_, ⟨more, rfl, named, rfl⟩, reads⟩, rfl⟩
                    · rintro ⟨_, rfl, ⟨_, ⟨more, rfl, _, rfl⟩, reads⟩, rfl⟩
                      exact ⟨more, List.append_cons .., reads, rfl⟩
                  · have refused : ∃ expected got,
                        replayFrom E file lineNo ops wal.seq wal.prevHash (some line :: ls) =
                          .error (.chainBroken (lineNo + 1) expected got) :=
                      replayFrom_broken blank parsed named
                    obtain ⟨expected, got, broken⟩ := refused
                    rw [broken]
                    simp only [named, reduceCtorEq, false_and, and_false, exists_false]

/-- A replay succeeds exactly on the files that hold a chain from genesis. -/
theorem replay_iff {file : Bytes} {ops : List WalOp} {wal : WriteAheadLog} :
    replay E (some file) = .ok (ops, wal.seq, wal.prevHash) ↔
      Reads E (lines file) (genesis.chain E ops) ∧ wal = genesis.advance E ops := by
  have loop : replayFrom E file 0 [] genesis.seq genesis.prevHash (lines file) =
      .ok (ops, wal.seq, wal.prevHash) ↔
        ∃ more, ops = [] ++ more ∧ Reads E (lines file) (genesis.chain E more) ∧
          wal = genesis.advance E more :=
    replayFrom_iff (Nat.zero_add _).symm
  simp only [List.nil_append, exists_eq_left'] at loop
  exact loop

theorem replay_ok_iff {file : Bytes} {ops : List WalOp} :
    (∃ seq tip, replay E (some file) = .ok (ops, seq, tip)) ↔
      Reads E (lines file) (genesis.chain E ops) := by
  constructor
  · rintro ⟨seq, tip, ok⟩
    have ends : replay E (some file) =
      .ok (ops, (⟨seq, tip⟩ : WriteAheadLog).seq, (⟨seq, tip⟩ : WriteAheadLog).prevHash) := ok
    exact (replay_iff.mp ends).1
  · intro reads
    exact ⟨_, _, replay_iff.mpr ⟨reads, rfl⟩⟩

theorem replay_nil : replay E (some []) = .ok ([], genesis.seq, genesis.prevHash) := rfl

/-- Opening succeeds where a replay does, a missing file counting as an empty one. -/
theorem openLog_iff {path : Option Bytes} {wal : WriteAheadLog} {file : Bytes} :
    openLog E path = .ok (wal, file) ↔
      file = path.getD [] ∧ ∃ ops, replay E (some file) = .ok (ops, wal.seq, wal.prevHash) := by
  cases path with
  | none =>
      constructor
      · intro opened
        cases opened
        exact ⟨rfl, [], replay_nil⟩
      · rintro ⟨rfl, ops, read⟩
        obtain ⟨seq, prevHash⟩ := wal
        cases read
        rfl
  | some bs =>
      simp only [openLog, scanTail, Option.getD_some]
      cases read : replay E (some bs) with
      | error e =>
          constructor
          · intro opened
            cases opened
          · rintro ⟨rfl, ops, ok⟩
            exact nomatch read.symm.trans ok
      | ok out =>
          obtain ⟨ops, seq, tip⟩ := out
          obtain ⟨seq', tip'⟩ := wal
          constructor
          · intro opened
            cases opened
            exact ⟨rfl, ops, read⟩
          · rintro ⟨rfl, ops', ok⟩
            cases read.symm.trans ok
            rfl

section Format
variable (format : E.record.LineFormat)
include format

theorem isBlank_append_text (t : String) (r : WalRecord) :
    isBlank (t ++ E.record.text r) = false := by
  obtain ⟨body, same⟩ := format.braced.toList r
  rw [isBlank, String.toList_append, List.all_append, same, List.cons_append, List.all_cons]
  exact Bool.and_false _

theorem isBlank_text (r : WalRecord) : isBlank (E.record.text r) = false := by
  simpa only [String.empty_append] using isBlank_append_text format "" r

theorem lines_recordLine (bs : Bytes) (r : WalRecord) (rest : Bytes) :
    lines (bs ++ recordLine E r ++ rest) =
      lines (closed bs) ++ decode (tail bs ++ utf8 (E.record.text r)) :: lines rest :=
  format.lines_line bs r rest

theorem lines_terminated_record {bs : Bytes} (complete : Terminated bs) (r : WalRecord)
    (rest : Bytes) :
    lines (bs ++ recordLine E r ++ rest) = lines bs ++ some (E.record.text r) :: lines rest := by
  rw [lines_recordLine format, closed_of_terminated complete, tail_of_terminated complete,
    List.nil_append, decode_utf8]

theorem whole_logBytes (rs : List WalRecord) : Whole E (lines (logBytes E rs)) rs := by
  induction rs with
  | nil => exact .nil
  | cons r rs ih =>
      have first := lines_terminated_record format (.inl rfl) r (logBytes E rs)
      rw [List.nil_append, lines_nil, List.nil_append] at first
      rw [logBytes, List.flatMap_cons, ← logBytes, first]
      exact .record (isBlank_text format r) (format.roundTrips r) ih

end Format

end KaiOs
