import KaiOs.Syncd.Snapshot

/-! The two ends of a sync connection in `syncd/src/lib.rs`: the source sends its snapshot
and awaits the ack, the sink receives and verifies. -/
namespace KaiOs.Syncd
open Utf8 Network Format

/-- The messages are printed by `serde_json` too. -/
structure SyncdExternals extends Externals where
  sync : ByteCodec SyncSnapshot
  ack : ByteCodec SyncAck

section
variable (E : SyncdExternals)

/-- `receive_and_verify` on a fresh connection. -/
def receiveAndVerify (reads : Incoming) : Except SyncError SyncSnapshot :=
  match receive [] reads with
  | .error e => .error (.tcp e)
  | .ok (bytes, _, _) => match E.sync.fromSlice bytes with
    | none => .error (.rootMismatch "unparsebar" "-")
    | some snap => match verifySnapshot E.toExternals snap with
      | .error e => .error e
      | .ok _ => .ok snap

/-- `send_and_await_ack` on a fresh connection, with the bytes it puts on the stream. -/
def sendAndAwaitAck (store : StateStore) (height : UInt64) (tip : String) (io : SendIo)
    (reads : Incoming) : Bytes × Except SyncError Unit :=
  let snap := snapshotFromStore E.toExternals store height tip
  let (outgoing, sent) := send (E.sync.toVec snap) io
  match sent with
  | .error e => (outgoing, .error (.tcp e))
  | .ok () => match receive [] reads with
    | .error e => (outgoing, .error (.tcp e))
    | .ok (bytes, _, _) => match E.ack.fromSlice bytes with
      | none =>
          (outgoing, .error (.ackMismatch (store.stateRoot E.shaHex) "unparsebar"))
      | some ack =>
          if ack.stateRoot ≠ store.stateRoot E.shaHex then
            (outgoing, .error (.ackMismatch (store.stateRoot E.shaHex) ack.stateRoot))
          else (outgoing, .ok ())

end

variable {E : SyncdExternals}

theorem outgoing_eq (store : StateStore) (height : UInt64) (tip : String) (io : SendIo)
    (reads : Incoming) :
    (sendAndAwaitAck E store height tip io reads).1 =
      (send (E.sync.toVec (snapshotFromStore E.toExternals store height tip)) io).1 := by
  simp only [sendAndAwaitAck]
  repeat' split
  all_goals rfl

theorem outgoing_begins (store : StateStore) (height : UInt64) (tip : String) (io : SendIo)
    (reads : Incoming) :
    (sendAndAwaitAck E store height tip io reads).1 <+:
      frame (E.sync.toVec (snapshotFromStore E.toExternals store height tip)) := by
  rw [outgoing_eq]
  exact send_begins _ io

/-- A source that returns success has read an ack with its own root. -/
theorem ack_of_ok {store : StateStore} {height : UInt64} {tip : String} {io : SendIo}
    {reads : Incoming} (done : (sendAndAwaitAck E store height tip io reads).2 = .ok ()) :
    ∃ bytes left more ack, receive [] reads = .ok (bytes, left, more) ∧
      E.ack.fromSlice bytes = some ack ∧ ack.stateRoot = store.stateRoot E.shaHex := by
  simp only [sendAndAwaitAck] at done
  split at done
  · cases done
  · split at done
    · cases done
    · rename_i bytes left more received
      split at done
      · cases done
      · rename_i ack parsed
        split_ifs at done with same
        exact ⟨bytes, left, more, ack, received, parsed, not_not.mp same⟩

/-- The sink takes over the snapshot that was sent, or nothing. -/
theorem receiveAndVerify_sent (trip : E.sync.RoundTrips) (prefixes : E.sync.RejectsPrefixes)
    {sent snap : SyncSnapshot} {reads : Incoming}
    (arrived : delivered reads <+: frame (E.sync.toVec sent))
    (h : receiveAndVerify E reads = .ok snap) : snap = sent := by
  simp only [receiveAndVerify] at h
  split at h
  · cases h
  · rename_i bytes left more received
    split at h
    · cases h
    · rename_i read parsed
      split at h
      · cases h
      · cases h
        exact ByteCodec.fromSlice_begun trip prefixes (receive_begins arrived received) parsed

/-- A snapshot that arrives in one piece is taken over, unless it is too large for a frame. -/
theorem receiveAndVerify_frame (trip : E.sync.RoundTrips) (store : StateStore) (height : UInt64)
    (tip : String)
    (small : (E.sync.toVec (snapshotFromStore E.toExternals store height tip)).length ≤ maxFrame) :
    receiveAndVerify E
        [some (frame (E.sync.toVec (snapshotFromStore E.toExternals store height tip)))] =
      .ok (snapshotFromStore E.toExternals store height tip) := by
  simp only [receiveAndVerify, receive_frame small, trip _, snapshotFromStore_verifies]

theorem sendAndAwaitAck_frame (trip : E.ack.RoundTrips) (store : StateStore) (height : UInt64)
    (tip : String) (small : (E.ack.toVec ⟨store.stateRoot E.shaHex⟩).length ≤ maxFrame) :
    (sendAndAwaitAck E store height tip .ok
      [some (frame (E.ack.toVec ⟨store.stateRoot E.shaHex⟩))]).2 = .ok () := by
  simp only [sendAndAwaitAck, send, receive_frame small, trip _, ne_eq, not_true_eq_false, ↓reduceIte]

section Json

def entryPair : Format (String × String) := string.seq (between "," string "")

def syncSnapshotFormat : Format SyncSnapshot :=
  (between "\x7b\"height\":" ((u64Format ',' comma_no_digit).seq
    (between "\"tip_block_hash\":" (string.seq
      (between ",\"state_root\":" (string.seq
        (between ",\"entries\":" (list entryPair "[]" "[[" "],[" "]]" (by decide) (by decide)) ""))
        "")) "")) "\x7d").map
    (fun p => ⟨p.1, p.2.1, p.2.2.1, p.2.2.2⟩)
    (fun s => (s.height, s.tipBlockHash, s.stateRoot, s.entries)) (fun _ => rfl)

def syncAckFormat : Format SyncAck :=
  (between "\x7b\"state_root\":" string "\x7d").map SyncAck.mk SyncAck.stateRoot (fun _ => rfl)

/-- The packages a sync node is built with. -/
def jsonSync : SyncdExternals where
  toExternals := jsonNode
  sync := syncSnapshotFormat.byteCodec
  ack := syncAckFormat.byteCodec

theorem jsonSync_sync_roundTrips : jsonSync.sync.RoundTrips := byteCodec_roundTrips

theorem jsonSync_sync_rejectsPrefixes : jsonSync.sync.RejectsPrefixes := byteCodec_rejectsPrefixes

theorem jsonSync_ack_roundTrips : jsonSync.ack.RoundTrips := byteCodec_roundTrips

end Json
end KaiOs.Syncd
