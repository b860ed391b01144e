import KaiOs.State.WalJson
import KaiOs.State.WalReplay

/-! What the log keeps over crashes and failed calls: the reader's view of a file that
was cut off, and of one that a handle went on writing. -/
namespace KaiOs
open Utf8 Lines WriteAheadLog

section
variable (E : WalExternals)

namespace WriteAheadLog

/-- Calls of `append_op` on one handle. -/
def appendRun (wal : WriteAheadLog) (file : Bytes) :
    List (WalOp × AppendIo) → WriteAheadLog × Bytes
  | [] => (wal, file)
  | (op, io) :: calls =>
      let after := appendOp E wal file op io
      appendRun after.1 after.2.1 calls

end WriteAheadLog

/-- The record goes on a line of its own behind the content, or behind characters that
leave it readable, and the content's complete lines can all be read. -/
def Joins (file : Bytes) (r : WalRecord) : Prop :=
  (∀ l ∈ lines (closed file), ∃ line, l = some line ∧
    (isBlank line = true ∨ (E.record.parse line).isSome)) ∧
  ∃ t, decode (tail file) = some t ∧ E.record.parse (t ++ E.record.text r) = some r

end

variable {E : WalExternals}

theorem appendOp_ok_iff {wal : WriteAheadLog} {file : Bytes} {op : WalOp} {io : AppendIo} :
    (∃ seq, (appendOp E wal file op io).2.2 = .ok seq) ↔ io = .ok := by
  cases io <;> simp [appendOp]

theorem appendRun_ok (wal : WriteAheadLog) (file : Bytes) (ops : List WalOp) :
    appendRun E wal file (ops.map fun op => (op, .ok)) =
      (wal.advance E ops, file ++ logBytes E (wal.chain E ops)) := by
  induction ops generalizing wal file with
  | nil => exact Prod.ext rfl (List.append_nil file).symm
  | cons op ops ih =>
      have step := ih (wal.next E op) (file ++ recordLine E (wal.nextRecord op))
      rw [List.append_assoc] at step
      exact step

theorem Whole.exists_of_forall {ls : List (Option String)}
    (h : ∀ l ∈ ls, ∃ line, l = some line ∧ (isBlank line = true ∨ (E.record.parse line).isSome)) :
    ∃ rs, Whole E ls rs := by
  induction ls with
  | nil => exact ⟨[], .nil⟩
  | cons l ls ih =>
      obtain ⟨rs, rest⟩ := ih fun l' member => h l' (List.mem_cons_of_mem l member)
      obtain ⟨line, rfl, readable⟩ := h l List.mem_cons_self
      cases blank : isBlank line with
      | true => exact ⟨rs, .blank blank rest⟩
      | false =>
          rw [blank] at readable
          obtain ⟨r, parsed⟩ := Option.isSome_iff_exists.mp (readable.resolve_left (by decide))
          exact ⟨r :: rs, .record blank parsed rest⟩

theorem Whole.forall {ls : List (Option String)} {rs : List WalRecord} (h : Whole E ls rs) :
    ∀ l ∈ ls, ∃ line, l = some line ∧ (isBlank line = true ∨ (E.record.parse line).isSome) := by
  induction h with
  | nil => exact fun _ member => nomatch member
  | blank blank _ ih => exact List.forall_mem_cons.mpr ⟨⟨_, rfl, .inl blank⟩, ih⟩
  | record _ parsed _ ih =>
      exact List.forall_mem_cons.mpr ⟨⟨_, rfl, .inr (by rw [parsed]; rfl)⟩, ih⟩

/-- What stands behind the complete lines of a readable content is text. It adds a record
only if it is one itself. -/
theorem reads_tail {file : Bytes} {rs front : List WalRecord} (read : Reads E (lines file) rs)
    (whole : Whole E (lines (closed file)) front) :
    ∃ t last, decode (tail file) = some t ∧ rs = front ++ last ∧
      (last = [] ∨ ∃ r, E.record.parse t = some r ∧ last = [r]) := by
  rw [lines_split] at read
  split_ifs at read with empty
  · rw [List.append_nil] at read
    refine ⟨"", [], by rw [empty, decode_nil], ?_, .inl rfl⟩
    rw [List.append_nil, read.unique whole.reads]
  · obtain ⟨front', last, rfl, whole', open_line⟩ := read.split (List.cons_ne_nil _ _)
    obtain rfl := whole'.reads.unique whole.reads
    cases found : decode (tail file) with
    | none => exact absurd (found ▸ open_line) reads_unreadable
    | some t =>
        refine ⟨t, last, rfl, rfl, ?_⟩
        rcases open_line.single with rfl | ⟨_, r, same, parsed, rfl⟩
        · exact .inl rfl
        · cases found.symm.trans same
          exact .inr ⟨r, parsed, rfl⟩

section Continue
variable (format : E.record.LineFormat) (trailing : E.record.RejectsTrailing)
include format trailing

/-- Records written behind a readable content are read as such exactly if the first one
joins it. -/
theorem reads_continue_iff {file : Bytes} {rs more : List WalRecord} {r : WalRecord}
    (read : Reads E (lines file) rs) :
    Reads E (lines (file ++ logBytes E (r :: more))) (rs ++ r :: more) ↔ Joins E file r := by
  have pieces : lines (file ++ logBytes E (r :: more)) = lines (closed file) ++
      decode (tail file ++ utf8 (E.record.text r)) :: lines (logBytes E more) := by
    rw [← lines_recordLine format, List.append_assoc]
    rfl
  rw [pieces]
  constructor
  · intro written
    obtain ⟨front, back, same, whole, rest⟩ := written.split (List.cons_ne_nil _ _)
    obtain ⟨t, last, found, rfl, old⟩ := reads_tail read whole
    refine ⟨whole.forall, t, found, ?_⟩
    rw [← decode_eq_some.mp found, ← utf8_append, decode_utf8] at rest
    rw [List.append_assoc, List.append_cancel_left_eq] at same
    cases parsed : E.record.parse (t ++ E.record.text r) with
    | none =>
        obtain ⟨_, rfl⟩ := (reads_torn (isBlank_append_text format t r) parsed).mp rest
        simp at same
    | some r' =>
        obtain ⟨_, rfl, _⟩ := (reads_record (isBlank_append_text format t r) parsed).mp rest
        rcases old with rfl | ⟨_, accepted, _⟩
        · rw [(List.cons.inj same).1]
        · exact nomatch parsed.symm.trans (trailing.concat format.braced accepted r)
  · rintro ⟨readable, t, found, joined⟩
    obtain ⟨front, whole⟩ := Whole.exists_of_forall readable
    obtain ⟨t', last, found', rfl, old⟩ := reads_tail read whole
    cases found.symm.trans found'
    rcases old with rfl | ⟨_, accepted, _⟩
    · rw [List.append_nil, ← decode_eq_some.mp found, ← utf8_append, decode_utf8]
      exact whole.reads_append (.record (isBlank_append_text format t r) joined
        (whole_logBytes format more).reads)
    · exact nomatch joined.symm.trans (trailing.concat format.braced accepted r)

theorem replay_written_iff {path : Option Bytes} {wal : WriteAheadLog} {file : Bytes}
    {recovered : List WalOp} (opened : openLog E path = .ok (wal, file))
    (read : ∃ seq tip, replay E (some file) = .ok (recovered, seq, tip)) (ops : List WalOp) :
    (∃ seq tip, replay E (some (file ++ logBytes E (wal.chain E ops))) =
        .ok (recovered ++ ops, seq, tip)) ↔
      ∀ r ∈ (wal.chain E ops).head?, Joins E file r := by
  have reads := replay_ok_iff.mp read
  obtain ⟨_, recovered', ok⟩ := openLog_iff.mp opened
  obtain ⟨reads', ends⟩ := replay_iff.mp ok
  obtain rfl := chain_inj (reads.unique reads')
  rw [replay_ok_iff, chain_append, ← ends]
  cases ops with
  | nil => simpa [chain, logBytes] using reads
  | cons op ops =>
      rw [chain, reads_continue_iff format trailing reads]
      simp

/-- A log that was opened and written to is read back in full exactly if the first
record written joins what the file held. -/
theorem replay_after_append_iff {path : Option Bytes} {wal : WriteAheadLog} {file : Bytes}
    {recovered : List WalOp} (opened : openLog E path = .ok (wal, file))
    (read : ∃ seq tip, replay E (some file) = .ok (recovered, seq, tip)) (ops : List WalOp) :
    (∃ seq tip, replay E (some (appendRun E wal file (ops.map fun op => (op, .ok))).2) =
        .ok (recovered ++ ops, seq, tip)) ↔
      ∀ r ∈ (wal.chain E ops).head?, Joins E file r := by
  rw [appendRun_ok]
  exact replay_written_iff format trailing opened read ops

end Continue

/-- A record does not begin with two braces. -/
theorem jsonWal_second_brace (r : WalRecord) : jsonWal.record.parse ("\x7b" ++ jsonWal.record.text r) = none := by
  cases found : jsonWal.record.parse ("\x7b" ++ jsonWal.record.text r) with
  | none => rfl
  | some a =>
      have same := congrArg String.toList (Format.codec_parse_iff.mp found)
      obtain ⟨body, braced⟩ := jsonWal_format.braced.toList r
      have quoted : ((walRecordFormat.codec.text a).toList)[1]? = some '"' := by
        rw [Format.codec, String.toList_ofList]
        rfl
      rw [← same, String.toList_append, braced] at quoted
      cases quoted

/-- Behind a crash that left the first byte of a record, an acknowledged op is lost. -/
theorem replay_loses_append :
    openLog jsonWal (some (utf8 "\x7b")) = .ok (genesis, utf8 "\x7b") ∧
      replay jsonWal (some (utf8 "\x7b")) = .ok ([], 0, genesisPrev) ∧
      replay jsonWal (some (appendRun jsonWal genesis (utf8 "\x7b")
        ([.apply (.set "a" "1")].map fun op => (op, .ok))).2) = .ok ([], 0, genesisPrev) := by
  have brace : closed (utf8 "\x7b") = [] ∧ tail (utf8 "\x7b") = utf8 "\x7b" := by decide +kernel
  have torn (t : String) (rejected : jsonWal.record.parse t = none) (solid : isBlank t = false) :
      Reads jsonWal [decode (utf8 t)] (genesis.chain jsonWal []) := by
    rw [decode_utf8]
    exact .torn solid rejected
  have begun : replay jsonWal (some (utf8 "\x7b")) = .ok ([], genesis.seq, genesis.prevHash) := by
    refine replay_iff.mpr ⟨?_, rfl⟩
    rw [lines_split, brace.1, brace.2, lines_nil, if_neg (by decide), List.nil_append]
    exact torn _ (by decide) (by decide)
  refine ⟨openLog_iff.mpr ⟨rfl, [], begun⟩, begun, ?_⟩
  have left (wal : WriteAheadLog) (file : Bytes) (op : WalOp) :
      (appendRun jsonWal wal file [(op, .ok)]).2 = file ++ recordLine jsonWal (wal.nextRecord op) := rfl
  have line := lines_recordLine jsonWal_format (utf8 "\x7b") (genesis.nextRecord (.apply (.set "a" "1"))) []
  rw [brace.1, brace.2, ← utf8_append, lines_nil, List.nil_append, List.append_nil] at line
  refine replay_iff.mpr ⟨?_, rfl⟩
  rw [List.map_singleton, left, line]
  exact torn _ (jsonWal_second_brace _) (isBlank_append_text jsonWal_format _ _)

theorem logBytes_terminated (rs : List WalRecord) : Terminated (logBytes E rs) := by
  induction rs with
  | nil => exact .inl rfl
  | cons r rs ih => exact (terminated_line _).append ih

theorem joins_log (format : E.record.LineFormat) (rs : List WalRecord) (r : WalRecord) :
    Joins E (logBytes E rs) r := by
  rw [Joins, closed_of_terminated (logBytes_terminated rs), tail_of_terminated (logBytes_terminated rs)]
  refine ⟨(whole_logBytes format rs).forall, "", decode_nil, ?_⟩
  rw [String.empty_append]
  exact format.roundTrips r

/-- A log with one record. -/
def firstLog : Bytes := logBytes jsonWal (genesis.chain jsonWal [.apply (.set "a" "1")])

theorem replay_after_append_fresh :
    ∃ wal, openLog jsonWal (some firstLog) = .ok (wal, firstLog) ∧
      ∃ seq tip, replay jsonWal (some (appendRun jsonWal wal firstLog
        ([.apply (.set "b" "2"), .apply (.remove "a")].map fun op => (op, .ok))).2) =
          .ok ([.apply (.set "a" "1")] ++ [.apply (.set "b" "2"), .apply (.remove "a")], seq, tip) := by
  obtain ⟨seq, tip, read⟩ : ∃ seq tip, replay jsonWal (some firstLog) = .ok ([.apply (.set "a" "1")], seq, tip) :=
    replay_ok_iff.mpr (whole_logBytes jsonWal_format _).reads
  have opened : openLog jsonWal (some firstLog) = .ok (⟨seq, tip⟩, firstLog) :=
    openLog_iff.mpr ⟨Option.getD_some.symm, [.apply (.set "a" "1")], read⟩
  refine ⟨⟨seq, tip⟩, opened, (replay_after_append_iff jsonWal_format jsonWal_rejectsTrailing opened
    ⟨seq, tip, read⟩ _).mpr ?_⟩
  intro r _
  exact joins_log jsonWal_format _ r

section Cut
variable (E)

/-- The texts of exactly the first `m` records end at or before byte `n` of their log. -/
def CompleteBefore (n m : ℕ) (rs : List WalRecord) : Prop :=
  m ≤ rs.length ∧ ∀ i < rs.length, (logBytes E (rs.take (i + 1))).length ≤ n + 1 ↔ i < m

variable {E}

theorem logBytes_length_take {rs : List WalRecord} {i k : ℕ} (le : i ≤ k) :
    (logBytes E (rs.take i)).length ≤ (logBytes E (rs.take k)).length := by
  obtain ⟨rest, same⟩ := List.take_prefix_take_left (l := rs) le
  rw [← same, logBytes_append, List.length_append]
  exact Nat.le_add_right _ _

theorem completeBefore_of {n m : ℕ} {rs : List WalRecord} (inside : m ≤ rs.length)
    (before : (logBytes E (rs.take m)).length ≤ n + 1)
    (behind : m < rs.length → n + 1 < (logBytes E (rs.take (m + 1))).length) :
    CompleteBefore E n m rs := by
  refine ⟨inside, ?_⟩
  intro i bound
  constructor
  · intro complete
    by_contra more
    have far : (logBytes E (rs.take (m + 1))).length ≤ (logBytes E (rs.take (i + 1))).length :=
      logBytes_length_take (by omega)
    have past := behind (by omega)
    omega
  · intro less
    have near : (logBytes E (rs.take (i + 1))).length ≤ (logBytes E (rs.take m)).length :=
      logBytes_length_take (by omega)
    omega

theorem recordLine_length (r : WalRecord) :
    (recordLine E r).length = (utf8 (E.record.text r)).length + 1 := by
  rw [recordLine, List.length_append, List.length_singleton]

/-- A cut is behind the log or in one record, at the latest before its newline. -/
theorem cut_cases (rs : List WalRecord) (n : ℕ) :
    (logBytes E rs).length ≤ n ∨ ∃ front r back j, rs = front ++ r :: back ∧
      j ≤ (utf8 (E.record.text r)).length ∧ n = (logBytes E front).length + j := by
  induction rs generalizing n with
  | nil => exact .inl (Nat.zero_le n)
  | cons r rs ih =>
      have first : logBytes E (r :: rs) = recordLine E r ++ logBytes E rs := rfl
      by_cases here : n ≤ (utf8 (E.record.text r)).length
      · exact .inr ⟨[], r, rs, n, rfl, here, (Nat.zero_add n).symm⟩
      · rcases ih (n - (recordLine E r).length) with past | ⟨front, r', back, j, rfl, within, at_cut⟩
        · refine .inl ?_
          rw [first, List.length_append]
          rw [recordLine_length] at past ⊢
          omega
        · refine .inr ⟨r :: front, r', back, j, rfl, within, ?_⟩
          have first' : logBytes E (r :: front) = recordLine E r ++ logBytes E front := rfl
          rw [first', List.length_append]
          rw [recordLine_length] at at_cut ⊢
          omega

theorem take_cut {front back : List WalRecord} {r : WalRecord} {j : ℕ}
    (within : j ≤ (utf8 (E.record.text r)).length) :
    (logBytes E (front ++ r :: back)).take ((logBytes E front).length + j) =
      logBytes E front ++ (utf8 (E.record.text r)).take j := by
  have pieces : logBytes E (front ++ r :: back) =
      logBytes E front ++ (utf8 (E.record.text r) ++ ([10] ++ logBytes E back)) := by
    rw [logBytes_append, ← List.append_assoc (utf8 _)]
    rfl
  rw [pieces, List.take_length_add_append, List.take_append_of_le_length within]

/-- The records of a cut log: the one that is cut counts if only its newline is missing. -/
def upToCut (E : WalExternals) (front : List WalRecord) (r : WalRecord) (j : ℕ) : List WalRecord :=
  front ++ if j = (utf8 (E.record.text r)).length then [r] else []

theorem take_upToCut (front back : List WalRecord) (r : WalRecord) (j : ℕ) :
    (front ++ r :: back).take (upToCut E front r j).length = upToCut E front r j := by
  have opens : ∃ rest, front ++ r :: back = upToCut E front r j ++ rest := by
    rw [upToCut]
    split_ifs
    · exact ⟨back, List.append_cons front r back⟩
    · exact ⟨r :: back, by rw [List.append_nil]⟩
  obtain ⟨rest, same⟩ := opens
  rw [same, List.take_left']
  rfl

theorem logBytes_concat_length (rs : List WalRecord) (r : WalRecord) :
    (logBytes E (rs ++ [r])).length =
      (logBytes E rs).length + (utf8 (E.record.text r)).length + 1 := by
  rw [logBytes_append, List.length_append, Nat.add_assoc, ← recordLine_length]
  exact congrArg _ (congrArg _ (List.append_nil _))

theorem completeBefore_cut {front back : List WalRecord} {r : WalRecord} {j : ℕ}
    (within : j ≤ (utf8 (E.record.text r)).length) :
    CompleteBefore E ((logBytes E front).length + j) (upToCut E front r j).length
      (front ++ r :: back) := by
  have inside := congrArg List.length (take_upToCut (E := E) front back r j)
  rw [List.length_take] at inside
  apply completeBefore_of (by omega)
  · rw [take_upToCut, upToCut]
    split_ifs
    · rw [logBytes_concat_length]
      omega
    · rw [List.append_nil]
      omega
  · intro more
    rw [upToCut] at more ⊢
    split_ifs at more ⊢ with full
    · rw [List.length_append, List.length_singleton] at more ⊢
      cases back with
      | nil => simp at more
      | cons r' back =>
          have two : (front ++ r :: r' :: back).take (front.length + 1 + 1) = front ++ [r] ++ [r'] := by
            rw [Nat.add_assoc, List.take_length_add_append, List.append_assoc]
            rfl
          rw [two, logBytes_concat_length, logBytes_concat_length]
          omega
    · have one : (front ++ r :: back).take (front.length + 1) = front ++ [r] :=
        List.take_length_add_append 1
      rw [List.append_nil, one, logBytes_concat_length]
      omega

theorem logBytes_text (rs : List WalRecord) : ∃ s, logBytes E rs = utf8 s := by
  induction rs with
  | nil => exact ⟨"", rfl⟩
  | cons r rs ih =>
      obtain ⟨s, same⟩ := ih
      refine ⟨E.record.text r ++ "\n" ++ s, ?_⟩
      rw [utf8_append, utf8_append, ← same]
      rfl

section
variable (format : E.record.LineFormat)
include format

theorem lines_cut (front : List WalRecord) (r : WalRecord) (j : ℕ) :
    lines (logBytes E front ++ (utf8 (E.record.text r)).take j) = lines (logBytes E front) ++
      if (utf8 (E.record.text r)).take j = [] then []
      else [decode ((utf8 (E.record.text r)).take j)] := by
  rw [lines_append (logBytes_terminated front)]
  split_ifs with empty
  · rw [empty, lines_nil]
  · have clean : (10 : UInt8) ∉ (utf8 (E.record.text r)).take j := fun member =>
      format.oneLine r ((newline_mem_utf8 _).mp (List.mem_of_mem_take member))
    rw [lines_unterminated clean empty]

theorem text_length_pos (r : WalRecord) : 0 < (utf8 (E.record.text r)).length := by
  rw [List.length_pos_iff]
  exact fun empty => format.braced.ne_empty r (utf8_eq_nil.mp empty)

theorem not_reads_cut {front : List WalRecord} {r : WalRecord} {j : ℕ}
    (broken : decode ((utf8 (E.record.text r)).take j) = none) (rs : List WalRecord) :
    ¬ Reads E (lines (logBytes E front ++ (utf8 (E.record.text r)).take j)) rs := by
  intro read
  have full : (utf8 (E.record.text r)).take j ≠ [] := by
    intro empty
    rw [empty, decode_nil] at broken
    cases broken
  rw [lines_cut format, if_neg full, broken] at read
  obtain ⟨_, _, _, _, last⟩ := read.split (List.cons_ne_nil _ _)
  exact reads_unreadable last

variable (prefixes : E.record.RejectsPrefixes)
include prefixes

theorem reads_cut {front : List WalRecord} {r : WalRecord} {j : ℕ}
    (within : j ≤ (utf8 (E.record.text r)).length) {t : String}
    (found : decode ((utf8 (E.record.text r)).take j) = some t) :
    Reads E (lines (logBytes E front ++ (utf8 (E.record.text r)).take j))
      (upToCut E front r j) := by
  rw [lines_cut format, upToCut]
  refine (whole_logBytes format front).reads_append ?_
  by_cases full : j = (utf8 (E.record.text r)).length
  · rw [if_pos full, full, List.take_length, decode_utf8, if_neg]
    · exact .record (isBlank_text format r) (format.roundTrips r) .nil
    · exact List.ne_nil_of_length_pos (text_length_pos format r)
  · rw [if_neg full]
    split_ifs with empty
    · exact .nil
    · have joined : (utf8 (E.record.text r)).take j ++ (utf8 (E.record.text r)).drop j =
          utf8 (E.record.text r) := List.take_append_drop j _
      obtain ⟨u, same, rest⟩ := decode_prefix joined found
      have begun : t ≠ "" := by
        rintro rfl
        exact empty (decode_eq_some.mp found).symm
      have broken : u ≠ "" := by
        rintro rfl
        have none_left := congrArg List.length rest
        rw [List.length_drop, utf8_empty, List.length_nil] at none_left
        omega
      rw [found]
      refine .torn ?_ (prefixes r t u same begun broken)
      obtain ⟨body, braced⟩ := format.braced.begin same begun
      rw [isBlank, braced, List.all_cons]
      rfl

/-- Over any records: the cut log reads as the complete ones exactly if it is text. -/
theorem reads_take_iff (rs : List WalRecord) (n : ℕ) :
    (∃ m, CompleteBefore E n m rs ∧ Reads E (lines ((logBytes E rs).take n)) (rs.take m)) ↔
      (decode ((logBytes E rs).take n)).isSome := by
  rcases cut_cases (E := E) rs n with past | ⟨front, r, back, j, rfl, within, rfl⟩
  · rw [List.take_of_length_le past]
    obtain ⟨s, same⟩ := logBytes_text (E := E) rs
    refine iff_of_true ⟨rs.length, completeBefore_of le_rfl ?_ (fun less => by omega), ?_⟩ ?_
    · rw [List.take_length]
      omega
    · rw [List.take_length]
      exact (whole_logBytes format rs).reads
    · rw [same, decode_utf8]
      rfl
  · obtain ⟨s, same⟩ := logBytes_text (E := E) front
    have text : (decode (logBytes E front ++ (utf8 (E.record.text r)).take j)).isSome =
        (decode ((utf8 (E.record.text r)).take j)).isSome := by
      rw [same, decode_utf8_append]
    rw [take_cut within, text]
    cases found : decode ((utf8 (E.record.text r)).take j) with
    | none =>
        refine iff_of_false ?_ (by decide)
        rintro ⟨m, _, read⟩
        exact not_reads_cut format found _ read
    | some t =>
        refine iff_of_true ⟨_, completeBefore_cut within, ?_⟩ rfl
        rw [take_upToCut]
        exact reads_cut format prefixes within found

/-- A log that was cut off anywhere reads as its complete records exactly if the cut
left text. -/
theorem replay_take_iff (ops : List WalOp) (n : ℕ) :
    (∃ m, CompleteBefore E n m (genesis.chain E ops) ∧
      replay E (some ((appendRun E genesis [] (ops.map fun op => (op, .ok))).2.take n)) =
        .ok (ops.take m, (genesis.advance E (ops.take m)).seq,
          (genesis.advance E (ops.take m)).prevHash)) ↔
      (decode ((appendRun E genesis [] (ops.map fun op => (op, .ok))).2.take n)).isSome := by
  rw [appendRun_ok, List.nil_append]
  simp only [replay_iff, ← chain_take, and_true]
  exact reads_take_iff format prefixes (genesis.chain E ops) n

end
end Cut

/-- A cut between the two bytes of an umlaut makes the log unreadable. -/
theorem replay_take_fails :
    replay jsonWal (some ((appendRun jsonWal genesis []
      ([.apply (.set "ä" "1")].map fun op => (op, .ok))).2.take 118)) = .error (.io .invalidData) := by
  decide +kernel

theorem replay_take_reads :
    ∃ m, CompleteBefore jsonWal 117 m (genesis.chain jsonWal [.apply (.set "ä" "1")]) ∧
      replay jsonWal (some ((appendRun jsonWal genesis []
        ([.apply (.set "ä" "1")].map fun op => (op, .ok))).2.take 117)) =
        .ok ([WalOp.apply (.set "ä" "1")].take m,
          (genesis.advance jsonWal ([WalOp.apply (.set "ä" "1")].take m)).seq,
          (genesis.advance jsonWal ([WalOp.apply (.set "ä" "1")].take m)).prevHash) :=
  (replay_take_iff jsonWal_format jsonWal_rejectsPrefixes _ 117).mpr (by decide +kernel)

section Failures

/-- The ops whose line reached the file. -/
def writtenOps (calls : List (WalOp × AppendIo)) : List WalOp :=
  calls.filterMap fun call => match call.2 with
    | .ok | .syncFails => some call.1
    | .writeFails _ => none

/-- The ops whose call returned `Ok`. -/
def acknowledgedOps (calls : List (WalOp × AppendIo)) : List WalOp :=
  calls.filterMap fun call => if call.2 = .ok then some call.1 else none

theorem acknowledged_sublist (calls : List (WalOp × AppendIo)) :
    (acknowledgedOps calls).Sublist (writtenOps calls) := by
  induction calls with
  | nil => exact .slnil
  | cons call calls ih =>
      obtain ⟨op, io⟩ := call
      cases io with
      | ok => exact ih.cons_cons op
      | writeFails n => exact ih
      | syncFails => exact ih.cons op

theorem appendRun_silent (wal : WriteAheadLog) (file : Bytes) {calls : List (WalOp × AppendIo)}
    (silent : ∀ call ∈ calls, call.2 = .writeFails 0) :
    (appendRun E wal file calls).2 = file ∧ writtenOps calls = [] := by
  induction calls generalizing wal file with
  | nil => exact ⟨rfl, rfl⟩
  | cons call calls ih =>
      obtain ⟨op, io⟩ := call
      obtain rfl : io = .writeFails 0 := silent _ List.mem_cons_self
      have rest := ih (wal.appendOp E file op (.writeFails 0)).1
        (wal.appendOp E file op (.writeFails 0)).2.1 fun call member =>
          silent call (List.mem_cons_of_mem _ member)
      simp only [appendOp, List.take_zero, List.append_nil] at rest
      simpa [appendRun, appendOp, writtenOps] using rest

/-- Where no line is written behind a failed call, the lines are the chain of their ops. -/
theorem appendRun_quiet (wal : WriteAheadLog) (file : Bytes) {calls : List (WalOp × AppendIo)}
    (clean : ∀ call ∈ calls, ∀ n, call.2 = .writeFails n → n = 0)
    (quiet : calls.Pairwise fun a b => a.2 ≠ .ok → b.2 = .writeFails 0) :
    (appendRun E wal file calls).2 = file ++ logBytes E (wal.chain E (writtenOps calls)) := by
  induction calls generalizing wal file with
  | nil => exact (List.append_nil file).symm
  | cons call calls ih =>
      obtain ⟨op, io⟩ := call
      obtain ⟨first, later⟩ := List.pairwise_cons.mp quiet
      have clean' := fun call member => clean call (List.mem_cons_of_mem _ member)
      cases io with
      | ok =>
          have step := ih (wal.next E op) (file ++ recordLine E (wal.nextRecord op)) clean' later
          rw [List.append_assoc] at step
          exact step
      | writeFails n =>
          obtain rfl := clean _ List.mem_cons_self n rfl
          obtain ⟨kept, none_written⟩ := appendRun_silent (E := E)
            (wal.appendOp E file op (.writeFails 0)).1 file
            fun call member => first call member (by simp)
          have nothing : file ++ (recordLine E (wal.nextRecord op)).take 0 = file := by
            rw [List.take_zero, List.append_nil]
          have written : writtenOps ((op, .writeFails 0) :: calls) = [] := none_written
          rw [written, chain, logBytes, List.flatMap_nil, List.append_nil]
          simp only [appendRun, appendOp, nothing]
          exact kept
      | syncFails =>
          obtain ⟨kept, none_written⟩ := appendRun_silent (E := E)
            (wal.appendOp E file op .syncFails).1 (file ++ recordLine E (wal.nextRecord op))
            fun call member => first call member (by simp)
          have written : writtenOps ((op, .syncFails) :: calls) = [op] := congrArg _ none_written
          rw [written, chain, chain, logBytes, List.flatMap_singleton]
          exact kept

section
variable (format : E.record.LineFormat) (trailing : E.record.RejectsTrailing)
include format trailing

/-- A run of calls in which no line is written behind a failed one is read back. -/
theorem replay_after_failures {path : Option Bytes} {wal : WriteAheadLog} {file : Bytes}
    {recovered : List WalOp} (opened : openLog E path = .ok (wal, file))
    (read : ∃ seq tip, replay E (some file) = .ok (recovered, seq, tip))
    {calls : List (WalOp × AppendIo)}
    (clean : ∀ call ∈ calls, ∀ n, call.2 = .writeFails n → n = 0)
    (joins : ∀ r ∈ (wal.chain E (writtenOps calls)).head?, Joins E file r)
    (quiet : calls.Pairwise fun a b => a.2 ≠ .ok → b.2 = .writeFails 0) :
    ∃ ops seq tip, replay E (some (appendRun E wal file calls).2) = .ok (recovered ++ ops, seq, tip) ∧
      (acknowledgedOps calls).Sublist ops ∧ ops.Sublist (writtenOps calls) := by
  obtain ⟨seq, tip, ok⟩ :=
    (replay_written_iff format trailing opened read (writtenOps calls)).mpr joins
  refine ⟨writtenOps calls, seq, tip, ?_, acknowledged_sublist calls, List.Sublist.refl _⟩
  rw [appendRun_quiet wal file clean quiet]
  exact ok

end

/-- An append that fails before it wrote anything makes the next acknowledged one
unreadable. -/
theorem replay_after_failure_breaks :
    replay jsonWal (some (appendRun jsonWal genesis []
      [(.apply (.set "a" "1"), .writeFails 0), (.apply (.set "b" "2"), .ok)]).2) =
        .error (.chainBroken 1 "seq 1" "seq 2") := by
  have left (wal : WriteAheadLog) (failed op : WalOp) :
      (appendRun jsonWal wal [] [(failed, .writeFails 0), (op, .ok)]).2 =
        recordLine jsonWal ⟨wal.seq + 1 + 1, wal.prevHash, op⟩ := rfl
  have lone (r : WalRecord) : lines (recordLine jsonWal r) = [some (jsonWal.record.text r)] := by
    have line := lines_terminated_record jsonWal_format (.inl rfl) r []
    simpa only [List.nil_append, List.append_nil, lines_nil] using line
  rw [left, replay, lone, replayFrom, isBlank_text jsonWal_format, jsonWal_format.roundTrips]
  decide

theorem replay_after_last_failure :
    ∃ ops seq tip, replay jsonWal (some (appendRun jsonWal genesis []
      [(.apply (.set "a" "1"), .ok), (.apply (.set "b" "2"), .syncFails)]).2) =
        .ok ([] ++ ops, seq, tip) ∧
      (acknowledgedOps [(.apply (.set "a" "1"), .ok), (.apply (.set "b" "2"), .syncFails)]).Sublist ops ∧
      ops.Sublist (writtenOps [(.apply (.set "a" "1"), .ok), (.apply (.set "b" "2"), .syncFails)]) := by
  have opened : openLog jsonWal none = .ok (genesis, []) := rfl
  refine replay_after_failures jsonWal_format jsonWal_rejectsTrailing opened
    ⟨0, genesisPrev, rfl⟩ ?_ ?_ ?_
  · simp
  · intro r _
    exact joins_log jsonWal_format [] r
  · simp

end Failures
end KaiOs
