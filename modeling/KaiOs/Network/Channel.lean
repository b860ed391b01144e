import KaiOs.Lib.Format
import KaiOs.Network.Frames
import KaiOs.Network.SessionIntegrity

/-! A session over a TCP peer, as `network/tests/tcp_transport.rs` puts it together: signed envelopes as JSON in
frames. What somebody on the line can make of them, and what a line that breaks delivers. -/
namespace KaiOs.Network
open Utf8 Signature

/-- Why a message is not taken. -/
inductive Refusal where
  | tcp (e : TcpError)
  | unreadable
  | session (e : SessionError)
  deriving DecidableEq

section
variable {Keypair : Type} (E : CryptoExternals Keypair) (codec : ByteCodec SignedEnvelope)

/-- What is put on the line for an envelope. -/
def wire (signed : SignedEnvelope) : Bytes := frame (codec.toVec signed)

/-- `from_slice` and `SecureSession::receive` on what a frame holds. -/
def takeFrame (s : SecureSession) (bytes : Bytes) : SecureSession × Except Refusal Bytes :=
  match codec.fromSlice bytes with
  | none => (s, .error .unreadable)
  | some signed => match s.receive E signed with
    | (s', .ok payload) => (s', .ok payload)
    | (s', .error e) => (s', .error (.session e))

/-- What the rounds return, each of `receive`, `from_slice` and `SecureSession::receive`; a stream that fails ends
them. -/
def intake : ℕ → SecureSession → Bytes → Incoming → List (Except Refusal Bytes)
  | 0, _, _, _ => []
  | count + 1, s, buf, reads => match receive buf reads with
    | .error e => [.error (.tcp e)]
    | .ok (bytes, buf', reads') =>
        (takeFrame E codec s bytes).2 :: intake count (takeFrame E codec s bytes).1 buf' reads'

end

/-- The payloads that were accepted. -/
def accepted (answers : List (Except Refusal Bytes)) : List Bytes := answers.filterMap Except.toOption

/-- The sender and the payload can be cut so that this is the payload. -/
def Cuts (e : Envelope) (payload : Bytes) : Prop :=
  ∃ sender, utf8 sender ++ 124 :: payload = utf8 e.fromPeerId ++ 124 :: e.payload

section Attack
variable {Keypair : Type} {E : CryptoExternals Keypair}

/-- What is accepted comes from an envelope that was sent, under its number. -/
structure From (s s' : SecureSession) (e : SignedEnvelope) (payload : Bytes) : Prop where
  above : s.lastRemoteSeq < e.envelope.seq
  next : s' = { s with lastRemoteSeq := e.envelope.seq }
  cuts : Cuts e.envelope payload
  whole : SecureSession.Uncut e.envelope → payload = e.envelope.payload

section
variable {k : Keypair} {r r' : SecureSession} {payloads : List Bytes} {sent : List SignedEnvelope}
  (sending : r.sendAll E k payloads = some (r', sent))
  (unmatched : Unmatched E.digest {b | b ∈ sent.map fun e => e.envelope.input})
include sending unmatched

theorem takeFrame_cases (codec : ByteCodec SignedEnvelope) {s : SecureSession} (session : r.sessionId = s.sessionId)
    (unforged : E.ed25519.Unforged s.remotePublic
      (Set.image E.digest {b | b ∈ sent.map fun e => e.envelope.input})) (bytes : Bytes) :
    (∃ e, takeFrame E codec s bytes = (s, .error e)) ∨
      ∃ e ∈ sent, ∃ s' payload, takeFrame E codec s bytes = (s', .ok payload) ∧ From s s' e payload := by
  unfold takeFrame
  cases codec.fromSlice bytes with
  | none => exact .inl ⟨_, rfl⟩
  | some signed =>
      obtain ok | ⟨err, refused⟩ := SecureSession.receive_cases E s signed
      · obtain ⟨-, -, each⟩ := SecureSession.sendAll_sends sending
        obtain ⟨sig, -, valid⟩ := ok.authentic
        obtain ⟨e, member, same⟩ := List.mem_map.mp (unforged.text unmatched valid)
        have sid := (each e member).2.1.trans session
        obtain ⟨seq, fields⟩ := (SecureSession.input_cuts (ok.session.trans sid.symm)).mp same.symm
        refine .inr ⟨e, member, { s with lastRemoteSeq := signed.envelope.seq }, signed.envelope.payload, ?_, ?_⟩
        · simp only [SecureSession.receive_of_accepts ok]
        · refine ⟨seq ▸ ok.fresh, by rw [seq], ⟨_, fields⟩, fun uncut => ?_⟩
          rw [SecureSession.eq_of_input (ok.session.trans sid.symm) uncut same.symm]
      · exact .inl ⟨.session err, by simp only [refused]⟩

/-- Over all rounds: the envelopes behind what is accepted have rising numbers. -/
theorem intake_from (codec : ByteCodec SignedEnvelope) (count : ℕ) {s : SecureSession}
    (session : r.sessionId = s.sessionId)
    (unforged : E.ed25519.Unforged s.remotePublic
      (Set.image E.digest {b | b ∈ sent.map fun e => e.envelope.input})) (buf : Bytes) (reads : Incoming) :
    ∃ origins : List SignedEnvelope, (∀ e ∈ origins, e ∈ sent ∧ s.lastRemoteSeq < e.envelope.seq) ∧
      origins.Pairwise (fun e e' => e.envelope.seq < e'.envelope.seq) ∧
      List.Forall₂ (fun payload e => Cuts e.envelope payload ∧
        (SecureSession.Uncut e.envelope → payload = e.envelope.payload))
        (accepted (intake E codec count s buf reads)) origins := by
  induction count generalizing s buf reads with
  | zero => exact ⟨[], by simp, .nil, .nil⟩
  | succ count ih =>
      unfold intake
      cases receive buf reads with
      | error e => exact ⟨[], by simp, .nil, .nil⟩
      | ok received =>
          obtain ⟨bytes, buf', reads'⟩ := received
          obtain ⟨e, refused⟩ | ⟨e, member, s', payload, taken, origin⟩ :=
            takeFrame_cases sending unmatched codec session unforged bytes
          · simp only [refused]
            exact ih session unforged buf' reads'
          · obtain ⟨above, rfl, cuts, whole⟩ := origin
            simp only [taken]
            obtain ⟨origins, inside, rising, each⟩ := ih (s := { s with lastRemoteSeq := e.envelope.seq })
              session unforged buf' reads'
            refine ⟨e :: origins, ?_, ?_, .cons ⟨cuts, whole⟩ each⟩
            · intro e' among
              obtain rfl | later := List.mem_cons.mp among
              · exact ⟨member, above⟩
              · exact ⟨(inside e' later).1, UInt64.lt_trans above (inside e' later).2⟩
            · exact List.pairwise_cons.mpr ⟨fun e' later => (inside e' later).2, rising⟩

/-- Whatever somebody puts on the line, in whatever pieces: each message that is accepted comes from a sent one of
its own, in the order of sending, and at most its cut between sender and payload has moved. Where no sent message
can be cut elsewhere, what is accepted is part of what was sent. -/
theorem intake_safe (codec : ByteCodec SignedEnvelope) {s : SecureSession} (session : r.sessionId = s.sessionId)
    (unforged : E.ed25519.Unforged s.remotePublic (Set.image E.digest {b | b ∈ sent.map fun e => e.envelope.input}))
    (count : ℕ) (reads : Incoming) :
    (∃ origins, origins.Sublist sent ∧
      List.Forall₂ (fun payload e => Cuts e.envelope payload) (accepted (intake E codec count s [] reads)) origins) ∧
    ((∀ e ∈ sent, SecureSession.Uncut e.envelope) →
      (accepted (intake E codec count s [] reads)).Sublist payloads) := by
  obtain ⟨origins, inside, rising, each⟩ :=
    intake_from sending unmatched codec count session unforged [] reads
  obtain ⟨texts, order, -⟩ := SecureSession.sendAll_sends sending
  have part : origins.Sublist sent := SecureSession.sublist_of_rising (fun e => e.envelope.seq) rising order
    fun e member => (inside e member).1
  refine ⟨⟨origins, part, each.imp fun _ _ both => both.1⟩, fun uncut => ?_⟩
  have among : ∀ e ∈ origins, SecureSession.Uncut e.envelope := fun e member => uncut e (inside e member).1
  have same : accepted (intake E codec count s [] reads) = origins.map fun e => e.envelope.payload := by
    clear inside rising part
    generalize accepted (intake E codec count s [] reads) = taken at each
    induction each with
    | nil => rfl
    | @cons payload e payloads origins both each ih =>
        obtain ⟨first, rest⟩ := List.forall_mem_cons.mp among
        rw [List.map_cons, both.2 first, ih rest]
  rw [same, ← texts]
  exact part.map _

end
end Attack

/-! ## A line that breaks -/

theorem whole_pieces {α : Type} {pieces : List (List α)} {arrived : List α} (begun : arrived <+: pieces.flatten) :
    ∃ m ≤ pieces.length, ∃ rest, arrived = (pieces.take m).flatten ++ rest ∧
      (m = pieces.length → rest = []) ∧
      ∀ next ∈ pieces[m]?, rest <+: next ∧ rest.length < next.length := by
  induction pieces generalizing arrived with
  | nil => exact ⟨0, le_rfl, arrived, rfl, fun _ => by simpa using begun, by simp⟩
  | cons piece pieces ih =>
      rw [List.flatten_cons] at begun
      obtain short | long := Nat.lt_or_ge arrived.length piece.length
      · have inside := List.prefix_of_prefix_length_le begun (List.prefix_append piece _) (Nat.le_of_lt short)
        refine ⟨0, Nat.zero_le _, arrived, rfl, by simp, ?_⟩
        rintro next ⟨⟩
        exact ⟨inside, short⟩
      · obtain ⟨more, rfl⟩ := List.prefix_of_prefix_length_le (List.prefix_append piece _) begun long
        obtain ⟨m, within, rest, split, all, next⟩ := ih ((List.prefix_append_right_inj piece).mp begun)
        refine ⟨m + 1, Nat.succ_le_succ within, rest, ?_, fun last => all (Nat.succ.inj last), next⟩
        rw [List.take_succ_cons, List.flatten_cons, List.append_assoc, ← split]

section Line
variable {buf payload later : Bytes} (small : payload.length ≤ maxFrame)
include small

theorem parseFrame_begun (begun : buf ++ later = frame payload) (unfinished : later ≠ []) :
    ∃ e, parseFrame buf = .error e ∧ ∀ declared limit, e ≠ .oversized declared limit := by
  cases parsed : parseFrame buf with
  | ok found =>
      have stream : buf ++ later = frame payload ++ [] := by rw [begun, List.append_nil]
      have whole := (parseFrame_first small later stream parsed).2
      rw [whole, List.append_assoc] at begun
      have nothing := List.append_right_eq_self.mp begun
      exact absurd (List.append_eq_nil_iff.mp nothing).2 unfinished
  | error e =>
      refine ⟨e, rfl, ?_⟩
      rintro declared limit rfl
      have whole := parseFrame_oversized parsed later
      rw [begun, parseFrame_small small] at whole
      cases whole

theorem receive_begun {chunks : List Bytes} (full : ∀ chunk ∈ chunks, chunk ≠ [])
    (begun : buf ++ chunks.flatten ++ later = frame payload) (unfinished : later ≠ []) :
    receive buf (chunks.map some) = .error .closedMidFrame := by
  induction chunks generalizing buf with
  | nil =>
      rw [List.flatten_nil, List.append_nil] at begun
      obtain ⟨e, waiting, -⟩ := parseFrame_begun small begun unfinished
      simp only [List.map_nil, receive, waiting]
  | cons chunk chunks ih =>
      rw [List.flatten_cons, ← List.append_assoc] at begun
      have front : buf ++ (chunk ++ (chunks.flatten ++ later)) = frame payload := by simpa using begun
      have back : buf ++ chunk ++ (chunks.flatten ++ later) = frame payload := by simpa using begun
      obtain ⟨e, waiting, -⟩ := parseFrame_begun small front (by simp [unfinished])
      have sized (declared limit : ℕ) : parseFrame (buf ++ chunk) ≠ .error (.oversized declared limit) := by
        obtain ⟨e', waiting', other⟩ := parseFrame_begun small back (by simp [unfinished])
        rw [waiting']
        exact fun same => other declared limit (Except.error.inj same)
      rw [List.map_cons, receive_more waiting (full chunk List.mem_cons_self) sized]
      exact ih (fun c member => full c (List.mem_cons_of_mem chunk member)) begun

end Line
section Delivery
variable {Keypair : Type} {E : CryptoExternals Keypair} {codec : ByteCodec SignedEnvelope}

/-- What a session takes one after the other. -/
structure Awaits (E : CryptoExternals Keypair) (s : SecureSession) (sent : List SignedEnvelope) : Prop where
  session : ∀ e ∈ sent, e.envelope.sessionId = s.sessionId
  authentic : ∀ e ∈ sent, s.Authentic E e
  above : ∀ e ∈ sent, s.lastRemoteSeq < e.envelope.seq
  rising : sent.Pairwise fun e e' => e.envelope.seq < e'.envelope.seq

theorem Awaits.next {s : SecureSession} {e : SignedEnvelope} {sent : List SignedEnvelope}
    (awaits : Awaits E s (e :: sent)) :
    s.Accepts E e ∧ Awaits E { s with lastRemoteSeq := e.envelope.seq } sent := by
  obtain ⟨session, sessions⟩ := List.forall_mem_cons.mp awaits.session
  obtain ⟨authentic, signatures⟩ := List.forall_mem_cons.mp awaits.authentic
  obtain ⟨later, rising⟩ := List.pairwise_cons.mp awaits.rising
  exact ⟨⟨session, awaits.above e List.mem_cons_self, authentic⟩, sessions, signatures, later, rising⟩

theorem Awaits.take {s : SecureSession} {sent : List SignedEnvelope} (awaits : Awaits E s sent) (m : ℕ) :
    Awaits E s (sent.take m) :=
  ⟨fun e member => awaits.session e (List.mem_of_mem_take member),
    fun e member => awaits.authentic e (List.mem_of_mem_take member),
    fun e member => awaits.above e (List.mem_of_mem_take member), awaits.rising.sublist (List.take_sublist m sent)⟩

theorem intake_sent {sent : List SignedEnvelope} {s : SecureSession} (awaits : Awaits E s sent)
    (trip : ∀ e ∈ sent, codec.fromSlice (codec.toVec e) = some e)
    (small : ∀ e ∈ sent, (codec.toVec e).length ≤ maxFrame) {chunks : List Bytes}
    (full : ∀ chunk ∈ chunks, chunk ≠ []) {buf rest : Bytes}
    (stream : buf ++ chunks.flatten = (sent.map (wire codec)).flatten ++ rest) :
    ∃ (s' : SecureSession) (left : Bytes) (unread : List Bytes), left ++ unread.flatten = rest ∧
      (∀ chunk ∈ unread, chunk ≠ []) ∧ ∀ rounds,
      intake E codec (sent.length + rounds) s buf (chunks.map some) =
        sent.map (fun e => .ok e.envelope.payload) ++ intake E codec rounds s' left (unread.map some) := by
  induction sent generalizing s buf chunks with
  | nil => exact ⟨s, buf, chunks, stream, full, fun rounds => by simp⟩
  | cons e sent ih =>
      rw [List.map_cons, List.flatten_cons, List.append_assoc] at stream
      obtain ⟨taken, unread, left, rfl, bytes, received⟩ :=
        receive_first (small e List.mem_cons_self) full stream
      rw [List.flatten_append, ← List.append_assoc, bytes, wire, List.append_assoc] at stream
      obtain ⟨accepts, later⟩ := awaits.next
      obtain ⟨s', left', unread', over', full', rounds'⟩ := ih later
        (fun e' member => trip e' (List.mem_cons_of_mem e member))
        (fun e' member => small e' (List.mem_cons_of_mem e member))
        (fun chunk member => full chunk (List.mem_append_right taken member)) (List.append_cancel_left stream)
      refine ⟨s', left', unread', over', full', fun rounds => ?_⟩
      have took : takeFrame E codec s (codec.toVec e) =
          ({ s with lastRemoteSeq := e.envelope.seq }, .ok e.envelope.payload) := by
        simp only [takeFrame, trip e List.mem_cons_self, SecureSession.receive_of_accepts accepts]
      rw [List.length_cons, Nat.add_right_comm, intake, received]
      simp only [took, rounds' rounds, List.map_cons, List.cons_append]

/-- Cut off at any byte and delivered in any pieces, a line gives exactly the messages whose frames are whole, in
order, and then says that it was closed. -/
theorem intake_cut {k : Keypair} {r r' s : SecureSession} {payloads : List Bytes} {sent : List SignedEnvelope}
    (sending : r.sendAll E k payloads = some (r', sent)) (key : s.remotePublic = publicBytes E k)
    (session : r.sessionId = s.sessionId) (fresh : s.lastRemoteSeq < r.nextLocalSeq)
    (correct : ∀ e ∈ sent, E.ed25519.CorrectAt k (envelopeBytes E e.envelope))
    (trip : ∀ e ∈ sent, codec.fromSlice (codec.toVec e) = some e)
    (small : ∀ e ∈ sent, (codec.toVec e).length ≤ maxFrame) {chunks : List Bytes}
    (full : ∀ chunk ∈ chunks, chunk ≠ []) (arrived : chunks.flatten <+: (sent.map (wire codec)).flatten) :
    ∃ m ≤ sent.length, ((sent.take m).map (wire codec)).flatten <+: chunks.flatten ∧
      (m < sent.length → chunks.flatten.length < ((sent.take (m + 1)).map (wire codec)).flatten.length) ∧
      ∀ count > m, intake E codec count s [] (chunks.map some) =
        (payloads.take m).map .ok ++ [.error (.tcp .closedMidFrame)] := by
  obtain ⟨texts, order, each⟩ := SecureSession.sendAll_sends sending
  have awaits : Awaits E s sent := by
    refine ⟨fun e member => ?_, fun e member => ?_, fun e member => ?_, order⟩
    · exact (each e member).2.1.trans session
    · have above := UInt64.lt_of_lt_of_le fresh (each e member).1
      exact (SecureSession.accepts_cut key session sending member (correct e member) above
        ((each e member).2.1.trans session) rfl).authentic
    · exact UInt64.lt_of_lt_of_le fresh (each e member).1
  obtain ⟨m, within, rest, split, all, next⟩ := whole_pieces arrived
  rw [List.length_map] at within all
  rw [← List.map_take] at split
  have front (e : SignedEnvelope) (member : e ∈ sent.take m) : e ∈ sent := List.mem_of_mem_take member
  obtain ⟨s', left, unread, remains, full', rounds⟩ := intake_sent (awaits.take m)
    (fun e member => trip e (front e member)) (fun e member => small e (front e member)) full
    (by rw [List.nil_append, split])
  have cut : ∃ payload later, payload.length ≤ maxFrame ∧ rest ++ later = frame payload ∧ later ≠ [] := by
    obtain less | rfl := Nat.lt_or_eq_of_le within
    · have there := List.getElem?_eq_getElem less
      obtain ⟨⟨later, same⟩, short⟩ := next (wire codec sent[m]) (by rw [List.getElem?_map, there]; rfl)
      refine ⟨_, later, small _ (List.getElem_mem less), same, ?_⟩
      rintro rfl
      rw [List.append_nil] at same
      exact absurd (congrArg List.length same) (Nat.ne_of_lt short)
    · rw [all rfl]
      exact ⟨[], frame [], by decide, rfl, by decide⟩
  obtain ⟨payload, later, sized, begun, unfinished⟩ := cut
  have closed := receive_begun sized full' (by rw [remains, begun]) unfinished
  refine ⟨m, within, split ▸ List.prefix_append _ _, fun less => ?_, fun count beyond => ?_⟩
  · obtain ⟨-, short⟩ := next (wire codec sent[m]) (by rw [List.getElem?_map, List.getElem?_eq_getElem less]; rfl)
    rw [← List.take_append_getElem less, List.map_append, List.flatten_append, split]
    simpa using short
  · obtain ⟨extra, rfl⟩ := Nat.exists_eq_add_of_lt beyond
    have whole := rounds (extra + 1)
    rw [List.length_take_of_le within] at whole
    rw [Nat.add_assoc, whole, intake, closed, ← texts, ← List.map_take, List.map_map]
    rfl

end Delivery

section Json
open Format

def u8sFormat : Format Bytes :=
  numbers.map (List.map UInt8.ofNat) (List.map UInt8.toNat) fun bytes => by simp [Function.comp_def]

def seqFormat : Format UInt64 :=
  (decimal ',' rfl).map UInt64.ofNat UInt64.toNat fun _ => UInt64.ofNat_toNat

def envelopeFormat : Format Envelope :=
  (between "\x7b\"session_id\":" (string.seq (between ",\"seq\":" (seqFormat.seq
    (between "\"from_peer_id\":" (string.seq (between ",\"payload\":" u8sFormat "")) "")) "")) "\x7d").map
    (fun p => ⟨p.1, p.2.1, p.2.2.1, p.2.2.2⟩)
    (fun e => (e.sessionId, e.seq, e.fromPeerId, e.payload)) (fun _ => rfl)

def signedFormat : Format SignedEnvelope :=
  (between "\x7b\"envelope\":" (envelopeFormat.seq (between ",\"signature\":" u8sFormat "")) "\x7d").map
    (fun p => ⟨p.1, p.2⟩) (fun signed => (signed.envelope, signed.signature)) (fun _ => rfl)

def jsonSigned : ByteCodec SignedEnvelope := signedFormat.byteCodec

end Json

section Alice
open SecureSession

def helloLine : Bytes := wire jsonSigned (aliceSigned (utf8 "hello"))

theorem hello_uncut : ∀ e ∈ [aliceSigned (utf8 "hello")], Uncut e.envelope := by
  intro e member
  rw [List.mem_singleton.mp member]
  refine ⟨by decide, fun text rest same => ?_⟩
  have bar : (124 : UInt8) ∈ utf8 "hello" := by
    rw [show utf8 "hello" = _ from same]
    simp
  exact absurd bar (by decide)

/-- Somebody puts Alice's frame on the line twice, and something else in between. -/
theorem intake_safe_hello : (accepted (intake (aliceExternals (utf8 "hello")) jsonSigned 3
    (new "s" "bob" "alice" aliceKey) [] [some helloLine, some (frame [0]), some helloLine])).Sublist
      [utf8 "hello"] := by
  have safe := intake_safe (s := new "s" "bob" "alice" aliceKey) (alice_sends (utf8 "hello"))
    (alice_unmatched _ (by decide +kernel)) jsonSigned rfl (pinned_unforged aliceKey) 3
    [some helloLine, some (frame [0]), some helloLine]
  exact safe.2 hello_uncut

theorem hello_small : (jsonSigned.toVec (aliceSigned (utf8 "hello"))).length ≤ maxFrame := by
  decide +kernel

/-- The line breaks behind Alice's first frame. -/
theorem intake_cut_hello : ∃ m ≤ 1, (([aliceSigned (utf8 "hello")].take m).map (wire jsonSigned)).flatten <+:
      [helloLine].flatten ∧
    (m < 1 → [helloLine].flatten.length <
      (([aliceSigned (utf8 "hello")].take (m + 1)).map (wire jsonSigned)).flatten.length) ∧
    ∀ count > m, intake (aliceExternals (utf8 "hello")) jsonSigned count (new "s" "bob" "alice" aliceKey) []
      ([helloLine].map some) = ([utf8 "hello"].take m).map .ok ++ [.error (.tcp .closedMidFrame)] := by
  refine intake_cut (s := new "s" "bob" "alice" aliceKey) (alice_sends (utf8 "hello")) rfl rfl (by decide)
    (alice_correct _) ?_ ?_ ?_ ?_
  · exact fun e _ => Format.byteCodec_roundTrips e
  · intro e member
    rw [List.mem_singleton.mp member]
    exact hello_small
  · simp [helloLine, wire, frame, beBytes]
  · simp [helloLine]

end Alice
end KaiOs.Network
