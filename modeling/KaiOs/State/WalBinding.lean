import KaiOs.State.WalJson

/-! The log as a hash chain. Where the hash has no collisions on what was hashed, the
tip of a log determines the log. -/
namespace KaiOs
open Utf8 Lines Fields WriteAheadLog

section
variable (E : WalExternals)

/-- The record of a line, if it has one. -/
def lineRecord (l : Option String) : Option WalRecord :=
  l.bind fun line => if isBlank line then none else E.record.parse line

def fileRecords (file : Bytes) : List WalRecord := (lines file).filterMap (lineRecord E)

/-- The texts hashed for the records of a file. -/
def hashedPayloads (file : Bytes) : Set String := {t | ∃ r ∈ fileRecords E file, t = r.payload E}

end

variable {E : WalExternals}

theorem Reads.records {ls : List (Option String)} {rs : List WalRecord} (h : Reads E ls rs) :
    ls.filterMap (lineRecord E) = rs := by
  induction h with
  | nil => rfl
  | blank blank _ ih =>
      simp only [List.filterMap_cons, lineRecord, Option.bind_some, blank, ↓reduceIte, ih]
  | record solid parsed _ ih =>
      simp only [List.filterMap_cons, lineRecord, Option.bind_some, solid, parsed,
        Bool.false_eq_true, ↓reduceIte, ih]
  | torn solid unparsed =>
      simp only [List.filterMap_cons, lineRecord, Option.bind_some, solid, unparsed,
        Bool.false_eq_true, ↓reduceIte, List.filterMap_nil]

theorem chain_linked (wal : WriteAheadLog) (ops : List WalOp) :
    HashChain.Linked WalRecord.prevHash (WalRecord.hash E) wal.prevHash (wal.chain E ops) := by
  induction ops generalizing wal with
  | nil => trivial
  | cons op ops ih => exact ⟨rfl, ih (wal.next E op)⟩

theorem chain_tip (wal : WriteAheadLog) (ops : List WalOp) :
    HashChain.tip (WalRecord.hash E) wal.prevHash (wal.chain E ops) =
      (wal.advance E ops).prevHash := by
  induction ops generalizing wal with
  | nil => rfl
  | cons op ops ih => exact ih (wal.next E op)

theorem chain_prevHash_free (hex : ∀ t, Free '|' (E.shaHex t)) {wal : WriteAheadLog}
    (start : Free '|' wal.prevHash) (ops : List WalOp) :
    ∀ r ∈ wal.chain E ops, Free '|' r.prevHash := by
  induction ops generalizing wal with
  | nil => exact fun _ member => nomatch member
  | cons op ops ih =>
      have next_free : Free '|' (wal.next E op).prevHash := hex _
      exact List.forall_mem_cons.mpr ⟨start, ih next_free⟩

/-- The payload can be taken apart where the previous hash is one. -/
theorem payload_inj (distinct : Function.Injective E.opText) {r r' : WalRecord}
    (free : Free '|' r.prevHash) (free' : Free '|' r'.prevHash)
    (same : r.payload E = r'.payload E) : r = r' := by
  have bar : "|".toList = ['|'] := rfl
  obtain ⟨seq, rest⟩ := first_field bar (free_decimal rfl _) (free_decimal rfl _)
    (by simpa only [WalRecord.payload, String.append_assoc] using same)
  obtain ⟨prev, op⟩ := first_field bar free free'
    (by simpa only [String.append_assoc] using rest)
  obtain ⟨seq₁, prev₁, op₁⟩ := r
  obtain ⟨seq₂, prev₂, op₂⟩ := r'
  have seqs : seq₁ = seq₂ := UInt64.toNat_inj.mp (decimal_inj seq)
  rw [seqs, show prev₁ = prev₂ from prev, show op₁ = op₂ from distinct op]

theorem replay_records {file : Bytes} {ops : List WalOp} {seq : UInt64} {tip : String}
    (read : replay E (some file) = .ok (ops, seq, tip)) :
    fileRecords E file = genesis.chain E ops ∧ ⟨seq, tip⟩ = genesis.advance E ops := by
  obtain ⟨reads, ends⟩ := replay_iff.mp (show replay E (some file) =
    .ok (ops, (⟨seq, tip⟩ : WriteAheadLog).seq, (⟨seq, tip⟩ : WriteAheadLog).prevHash) from read)
  exact ⟨reads.records, ends⟩

theorem records_linked {file : Bytes} {ops : List WalOp} {seq : UInt64} {tip : String}
    (read : replay E (some file) = .ok (ops, seq, tip)) :
    HashChain.Linked WalRecord.prevHash (WalRecord.hash E) genesisPrev (fileRecords E file) := by
  rw [(replay_records read).1]
  exact chain_linked genesis ops

theorem records_tip {file : Bytes} {ops : List WalOp} {seq : UInt64} {tip : String}
    (read : replay E (some file) = .ok (ops, seq, tip)) :
    HashChain.tip (WalRecord.hash E) genesisPrev (fileRecords E file) = tip := by
  obtain ⟨records, ends⟩ := replay_records read
  rw [records]
  exact (chain_tip genesis ops).trans (congrArg WriteAheadLog.prevHash ends.symm)

section Binding
variable {file₁ file₂ : Bytes} {ops₁ ops₂ : List WalOp} {seq₁ seq₂ : UInt64} {tip₁ tip₂ : String}
  (read₁ : replay E (some file₁) = .ok (ops₁, seq₁, tip₁))
  (read₂ : replay E (some file₂) = .ok (ops₂, seq₂, tip₂))
  (inj : Set.InjOn E.shaHex (hashedPayloads E file₁ ∪ hashedPayloads E file₂))
  (hex : ∀ t, Free '|' (E.shaHex t)) (distinct : Function.Injective E.opText)
  (fresh : ∀ t ∈ hashedPayloads E file₁ ∪ hashedPayloads E file₂, E.shaHex t ≠ genesisPrev)
include read₁ read₂ inj hex distinct

theorem hash_injOn :
    Set.InjOn (WalRecord.hash E) {r | r ∈ fileRecords E file₁ ∨ r ∈ fileRecords E file₂} := by
  have start : Free '|' genesis.prevHash := by decide
  have free : ∀ r, r ∈ fileRecords E file₁ ∨ r ∈ fileRecords E file₂ → Free '|' r.prevHash := by
    intro r member
    rw [(replay_records read₁).1, (replay_records read₂).1] at member
    exact member.elim (chain_prevHash_free hex start ops₁ r) (chain_prevHash_free hex start ops₂ r)
  intro r member r' member' same
  apply payload_inj distinct (free r member) (free r' member')
  apply inj _ _ same
  · exact member.imp (fun here => ⟨r, here, rfl⟩) fun here => ⟨r, here, rfl⟩
  · exact member'.imp (fun here => ⟨r', here, rfl⟩) fun here => ⟨r', here, rfl⟩

include fresh

theorem take_eq_of_tip {i j : ℕ}
    (same : HashChain.tip (WalRecord.hash E) genesisPrev ((fileRecords E file₁).take i) =
      HashChain.tip (WalRecord.hash E) genesisPrev ((fileRecords E file₂).take j)) :
    (fileRecords E file₁).take i = (fileRecords E file₂).take j := by
  have linked₁ := records_linked read₁
  have linked₂ := records_linked read₂
  refine HashChain.Linked.eq_of_tip WalRecord.prevHash (WalRecord.hash E)
    (hash_injOn read₁ read₂ inj hex distinct) ?_ (linked₁.take _ _ i) (linked₂.take _ _ j) ?_ ?_ same
  · intro r member
    exact fresh _ (member.imp (fun here => ⟨r, here, rfl⟩) fun here => ⟨r, here, rfl⟩)
  · intro r here
    exact Or.inl (List.mem_of_mem_take here)
  · intro r here
    exact Or.inr (List.mem_of_mem_take here)

theorem take_eq_of_prevHash {i j : ℕ} {r₁ r₂ : WalRecord}
    (at₁ : (fileRecords E file₁)[i]? = some r₁) (at₂ : (fileRecords E file₂)[j]? = some r₂)
    (same : r₁.prevHash = r₂.prevHash) :
    (fileRecords E file₁).take i = (fileRecords E file₂).take j := by
  apply take_eq_of_tip read₁ read₂ inj hex distinct fresh
  rw [← (records_linked read₁).prev_getElem _ _ at₁, ← (records_linked read₂).prev_getElem _ _ at₂]
  exact same

/-- The tip of a log binds its ops and its length, and every record binds what stands
before it. -/
theorem tip_binds_history :
    (tip₁ = tip₂ → ops₁ = ops₂ ∧ seq₁ = seq₂) ∧
    (∀ i j r₁ r₂, (fileRecords E file₁)[i]? = some r₁ → (fileRecords E file₂)[j]? = some r₂ →
      r₁.prevHash = r₂.prevHash →
        (fileRecords E file₁).take i = (fileRecords E file₂).take j ∧ ops₁.take i = ops₂.take j) ∧
    (∀ i r, (fileRecords E file₁)[i]? = some r → r ∈ fileRecords E file₂ →
      (fileRecords E file₁).take (i + 1) <+: fileRecords E file₂) := by
  obtain ⟨records₁, ends₁⟩ := replay_records read₁
  obtain ⟨records₂, ends₂⟩ := replay_records read₂
  refine ⟨?_, ?_, ?_⟩
  · intro same
    have whole : (fileRecords E file₁).take (fileRecords E file₁).length =
        (fileRecords E file₂).take (fileRecords E file₂).length := by
      apply take_eq_of_tip read₁ read₂ inj hex distinct fresh
      rw [List.take_length, List.take_length, records_tip read₁, records_tip read₂]
      exact same
    rw [List.take_length, List.take_length, records₁, records₂] at whole
    have ops := chain_inj whole
    rw [ops, ← ends₂] at ends₁
    exact ⟨ops, congrArg WriteAheadLog.seq ends₁⟩
  · intro i j r₁ r₂ at₁ at₂ same
    have earlier := take_eq_of_prevHash read₁ read₂ inj hex distinct fresh at₁ at₂ same
    refine ⟨earlier, ?_⟩
    have ops := congrArg (List.map WalRecord.op) earlier
    rwa [records₁, records₂, List.map_take, List.map_take, chain_ops, chain_ops] at ops
  · intro i r at₁ kept
    obtain ⟨j, at₂⟩ := List.mem_iff_getElem?.mp kept
    have earlier := take_eq_of_prevHash read₁ read₂ inj hex distinct fresh at₁ at₂ rfl
    have upto : (fileRecords E file₁).take (i + 1) = (fileRecords E file₂).take (j + 1) := by
      rw [List.take_add_one, List.take_add_one, earlier, at₁, at₂]
    rw [upto]
    exact List.take_prefix _ _

end Binding

theorem hashedPayloads_jsonLog (ops : List WalOp) :
    hashedPayloads jsonWal (jsonLog ops) =
      {t | ∃ r ∈ genesis.chain jsonWal ops, t = r.payload jsonWal} := by
  rw [hashedPayloads, (replay_records (replay_jsonLog ops)).1]

/-- A log and the log that goes on by one record. -/
theorem tip_binds_history_prefix :
    (fileRecords jsonWal (jsonLog [.apply (.set "a" "1")])).take 1 <+:
      fileRecords jsonWal (jsonLog [.apply (.set "a" "1"), .apply (.remove "a")]) := by
  have payloads : hashedPayloads jsonWal (jsonLog [.apply (.set "a" "1")]) ∪
      hashedPayloads jsonWal (jsonLog [.apply (.set "a" "1"), .apply (.remove "a")]) ⊆
        {(genesis.nextRecord (.apply (.set "a" "1"))).payload jsonWal,
          ((genesis.next jsonWal (.apply (.set "a" "1"))).nextRecord
            (.apply (.remove "a"))).payload jsonWal} := by
    rw [hashedPayloads_jsonLog, hashedPayloads_jsonLog]
    rintro t (⟨r, member, rfl⟩ | ⟨r, member, rfl⟩)
    all_goals
      simp only [chain, List.mem_cons, List.not_mem_nil, or_false] at member
      grind
  refine (tip_binds_history (replay_jsonLog _) (replay_jsonLog _) ?_ jsonWal_free
    jsonWal_opText_injective ?_).2.2 0 (genesis.nextRecord (.apply (.set "a" "1"))) ?_ ?_
  · refine Set.InjOn.mono payloads (Set.injOn_pair.mpr ?_)
    decide +kernel
  · intro t member
    rcases payloads member with rfl | rfl <;> decide +kernel
  · rw [(replay_records (replay_jsonLog _)).1]
    rfl
  · rw [(replay_records (replay_jsonLog _)).1]
    exact List.mem_cons_self

end KaiOs
