import KaiOs.Network.Session

/-! What a signature on an envelope covers. The hashed bytes do not say where the sender's
id ends, and `receive` does not compare that id: a signed envelope can be cut again. -/
namespace KaiOs.Network
open Utf8 Fields Signature
namespace SecureSession

/-- No separator lets the sender's id end elsewhere: none in the id, and none in the payload
behind bytes that are text. -/
structure Uncut (e : Envelope) : Prop where
  sender : Free '|' e.fromPeerId
  payload : ∀ text rest, e.payload ≠ utf8 text ++ 124 :: rest

/-- What an accepted envelope is meant to be: one of those sent, by the remote peer. -/
structure Genuine (sent : List SignedEnvelope) (s : SecureSession) (signed : SignedEnvelope)
    (payload : Bytes) : Prop where
  envelope : signed.envelope ∈ sent.map SignedEnvelope.envelope
  sender : signed.envelope.fromPeerId = s.remotePeerId
  returned : payload ∈ sent.map fun e => e.envelope.payload

theorem input_cuts {e e' : Envelope} (session : e.sessionId = e'.sessionId) :
    e.input = e'.input ↔ e.seq = e'.seq ∧
      utf8 e.fromPeerId ++ 124 :: e.payload = utf8 e'.fromPeerId ++ 124 :: e'.payload := by
  unfold Envelope.input
  rw [session, List.append_cancel_left_eq, List.cons.injEq]
  constructor
  · rintro ⟨_, rest⟩
    obtain ⟨seq, rest⟩ := List.append_inj rest rfl
    exact ⟨u64Be_inj seq, (List.cons.inj rest).2⟩
  · rintro ⟨seq, rest⟩
    exact ⟨rfl, by rw [seq, rest]⟩

theorem eq_of_input {e e' : Envelope} (session : e.sessionId = e'.sessionId) (uncut : Uncut e')
    (same : e.input = e'.input) : e = e' := by
  obtain ⟨seq, fields⟩ := (input_cuts session).mp same
  rcases field_cuts (c := '|') (by decide) fields with ⟨sender, payload⟩ | ⟨u, sender, _⟩ | ⟨u, _, payload⟩
  · cases e
    cases e'
    simp only [Envelope.mk.injEq]
    exact ⟨session, seq, sender, payload⟩
  · apply absurd uncut.sender
    simp [Free, sender]
  · exact absurd payload (uncut.payload u e.payload)

theorem cut_ne (front back : String) : front ++ "|" ++ back ≠ front := by
  intro same
  have length := congrArg String.length same
  have bar : "|".length = 1 := rfl
  simp only [String.length_append] at length
  omega

section
variable {Keypair : Type} {E : CryptoExternals Keypair} {s r r' : SecureSession} {k : Keypair}
  {payloads : List Bytes} {sent : List SignedEnvelope}
  (key : s.remotePublic = publicBytes E k) (session : r.sessionId = s.sessionId)
  (sending : r.sendAll E k payloads = some (r', sent))
include key session sending

theorem accepts_cut {e : SignedEnvelope} {other : Envelope} (member : e ∈ sent)
    (correct : E.ed25519.CorrectAt k (envelopeBytes E e.envelope))
    (fresh : s.lastRemoteSeq < e.envelope.seq) (same_session : other.sessionId = s.sessionId)
    (same : other.input = e.envelope.input) : s.Accepts E ⟨other, e.signature⟩ := by
  obtain ⟨_, _, each⟩ := sendAll_sends sending
  obtain ⟨_, sid, _, signature⟩ := each e member
  have seq := ((input_cuts (same_session.trans (session.symm.trans sid.symm))).mp same).1
  refine ⟨same_session, ?_, sign E k (envelopeBytes E e.envelope), ?_, ?_⟩
  · rw [seq]
    exact fresh
  · rw [signature, tryInto_val]
  · have bytes : envelopeBytes E other = envelopeBytes E e.envelope := congrArg E.digest same
    rw [key, bytes]
    exact correct

theorem uncut_of_genuine
    (genuine : ∀ signed payload, (s.receive E signed).2 = .ok payload →
      signed.envelope.fromPeerId = s.remotePeerId)
    {e : SignedEnvelope} (member : e ∈ sent) (correct : E.ed25519.CorrectAt k (envelopeBytes E e.envelope))
    (fresh : s.lastRemoteSeq < e.envelope.seq) :
    e.envelope.fromPeerId = s.remotePeerId ∧ Uncut e.envelope := by
  obtain ⟨_, _, each⟩ := sendAll_sends sending
  have sid := (each e member).2.1.trans session
  have accepted (sender : String) (payload : Bytes)
      (same : utf8 sender ++ 124 :: payload = utf8 e.envelope.fromPeerId ++ 124 :: e.envelope.payload) :
      sender = s.remotePeerId := by
    have same_input := (input_cuts (e := ⟨s.sessionId, e.envelope.seq, sender, payload⟩)
      sid.symm).mpr ⟨rfl, same⟩
    have taken := accepts_cut key session sending member correct fresh rfl same_input
    exact genuine _ _ (by rw [receive_of_accepts taken])
  have sender := accepted _ _ rfl
  refine ⟨sender, fun bar => ?_, fun text rest payload => ?_⟩
  · obtain ⟨front, back, split⟩ := List.append_of_mem bar
    have cut : e.envelope.fromPeerId = String.ofList front ++ "|" ++ String.ofList back := by
      rw [← String.toList_inj, split]
      simp
    have shorter := accepted (String.ofList front) (utf8 (String.ofList back) ++ 124 :: e.envelope.payload) (by
      rw [cut, utf8_append, utf8_append, List.append_assoc, List.append_assoc]
      rfl)
    exact cut_ne _ _ (cut.symm.trans (sender.trans shorter.symm))
  · have longer := accepted (e.envelope.fromPeerId ++ "|" ++ text) rest (by
      rw [payload, utf8_append, utf8_append, List.append_assoc, List.append_assoc]
      rfl)
    exact cut_ne _ _ (longer.trans sender.symm)

omit key in
theorem genuine_of_uncut
    (unmatched : Unmatched E.digest {b | b ∈ sent.map fun e => e.envelope.input})
    (unforged : E.ed25519.Unforged s.remotePublic
      (Set.image E.digest {b | b ∈ sent.map fun e => e.envelope.input}))
    (plain : ∀ e ∈ sent, s.lastRemoteSeq < e.envelope.seq →
      e.envelope.fromPeerId = s.remotePeerId ∧ Uncut e.envelope)
    {signed : SignedEnvelope} {payload : Bytes} (done : (s.receive E signed).2 = .ok payload) :
    Genuine sent s signed payload := by
  obtain ⟨_, _, each⟩ := sendAll_sends sending
  have ok := receive_ok_iff.mp ⟨payload, done⟩
  rw [receive_of_accepts ok] at done
  cases done
  obtain ⟨sig, _, valid⟩ := ok.authentic
  obtain ⟨e, member, same⟩ := List.mem_map.mp (unforged.text unmatched valid)
  have sid := ok.session.trans (session.symm.trans (each e member).2.1.symm)
  have seq := ((input_cuts sid).mp same.symm).1
  obtain ⟨sender, uncut⟩ := plain e member (seq ▸ ok.fresh)
  have envelope := eq_of_input sid uncut same.symm
  refine ⟨?_, ?_, ?_⟩
  · rw [envelope]
    exact List.mem_map_of_mem member
  · rw [envelope, sender]
  · rw [envelope]
    exact List.mem_map_of_mem (f := fun e => e.envelope.payload) member

/-- Only sent envelopes of the remote peer are accepted, exactly if none of those still above
the last number can be cut elsewhere or names another peer. -/
theorem receive_genuine_iff
    (unmatched : Unmatched E.digest {b | b ∈ sent.map fun e => e.envelope.input})
    (unforged : E.ed25519.Unforged s.remotePublic
      (Set.image E.digest {b | b ∈ sent.map fun e => e.envelope.input}))
    (correct : ∀ e ∈ sent, E.ed25519.CorrectAt k (envelopeBytes E e.envelope)) :
    (∀ signed payload, (s.receive E signed).2 = .ok payload → Genuine sent s signed payload) ↔
      ∀ e ∈ sent, s.lastRemoteSeq < e.envelope.seq →
        e.envelope.fromPeerId = s.remotePeerId ∧ Uncut e.envelope := by
  constructor
  · intro genuine e member fresh
    exact uncut_of_genuine key session sending (fun signed payload done => (genuine signed payload done).sender)
      member (correct e member) fresh
  · intro plain signed payload done
    exact genuine_of_uncut session sending unmatched unforged plain done

end

section Alice

def aliceEnvelope (payload : Bytes) : Envelope := ⟨"s", 1, "alice", payload⟩

abbrev aliceExternals (payload : Bytes) : CryptoExternals (U8Array 32) := pinned [(aliceEnvelope payload).input]

def aliceSigned (payload : Bytes) : SignedEnvelope :=
  ⟨aliceEnvelope payload,
    (sign (aliceExternals payload) aliceKey (envelopeBytes (aliceExternals payload) (aliceEnvelope payload))).val⟩

theorem alice_sends (payload : Bytes) :
    (new "s" "alice" "bob" bobKey).sendAll (aliceExternals payload) aliceKey [payload] =
      some ({ new "s" "alice" "bob" bobKey with nextLocalSeq := 2 }, [aliceSigned payload]) := by
  rfl

theorem alice_correct (payload : Bytes) : ∀ e ∈ [aliceSigned payload],
    (aliceExternals payload).ed25519.CorrectAt aliceKey
      (envelopeBytes (aliceExternals payload) e.envelope) := by
  intro e member
  rw [List.mem_singleton.mp member]
  exact pinned_correct aliceKey (List.mem_singleton.mpr rfl)

theorem alice_unmatched (payload : Bytes)
    (other : Sha256.digestBytes (aliceEnvelope payload).input ≠ List.replicate 32 0) :
    Unmatched (aliceExternals payload).digest
      {b | b ∈ [aliceSigned payload].map fun e => e.envelope.input} := by
  refine pinned_unmatched ?_ ?_
  · intro x member y member' _
    rw [List.mem_singleton.mp member, List.mem_singleton.mp member']
  · intro x member
    rw [List.mem_singleton.mp member]
    exact other

/-- Alice's payload `x|y` is accepted again as the payload `y` of a peer `alice|x`. -/
theorem receive_takes_cut :
    Unmatched (aliceExternals (utf8 "x|y")).digest
      {b | b ∈ [aliceSigned (utf8 "x|y")].map fun e => e.envelope.input} ∧
    (aliceExternals (utf8 "x|y")).ed25519.Unforged aliceKey (Set.image (aliceExternals (utf8 "x|y")).digest
      {b | b ∈ [aliceSigned (utf8 "x|y")].map fun e => e.envelope.input}) ∧
    (new "s" "alice" "bob" bobKey).sendAll (aliceExternals (utf8 "x|y")) aliceKey [utf8 "x|y"] =
      some ({ new "s" "alice" "bob" bobKey with nextLocalSeq := 2 }, [aliceSigned (utf8 "x|y")]) ∧
    ((new "s" "bob" "alice" aliceKey).receive (aliceExternals (utf8 "x|y"))
      ⟨⟨"s", 1, "alice|x", utf8 "y"⟩, (aliceSigned (utf8 "x|y")).signature⟩).2 = .ok (utf8 "y") ∧
    ¬ Genuine [aliceSigned (utf8 "x|y")] (new "s" "bob" "alice" aliceKey)
      ⟨⟨"s", 1, "alice|x", utf8 "y"⟩, (aliceSigned (utf8 "x|y")).signature⟩ (utf8 "y") := by
  refine ⟨alice_unmatched _ (by decide +kernel), pinned_unforged aliceKey, alice_sends _, ?_, ?_⟩
  · have same : Envelope.input ⟨"s", 1, "alice|x", utf8 "y"⟩ = (aliceEnvelope (utf8 "x|y")).input := by
      decide
    have cut := accepts_cut (s := new "s" "bob" "alice" aliceKey) (r := new "s" "alice" "bob" bobKey)
      (k := aliceKey) rfl rfl (alice_sends (utf8 "x|y")) (List.mem_singleton.mpr rfl)
      (alice_correct _ _ (List.mem_singleton.mpr rfl)) (by decide) rfl same
    rw [receive_of_accepts cut]
  · intro genuine
    exact absurd genuine.sender (by decide)

theorem receive_genuine_hello :
    (∀ signed payload, ((new "s" "bob" "alice" aliceKey).receive (aliceExternals (utf8 "hello")) signed).2 =
        .ok payload →
      Genuine [aliceSigned (utf8 "hello")] (new "s" "bob" "alice" aliceKey) signed payload) ↔
    ∀ e ∈ [aliceSigned (utf8 "hello")], (0 : UInt64) < e.envelope.seq →
      e.envelope.fromPeerId = "alice" ∧ Uncut e.envelope := by
  refine receive_genuine_iff (s := new "s" "bob" "alice" aliceKey) (r := new "s" "alice" "bob" bobKey)
    (k := aliceKey) rfl rfl (alice_sends (utf8 "hello")) ?_ ?_ (alice_correct _)
  · exact alice_unmatched _ (by decide +kernel)
  · exact pinned_unforged aliceKey

end Alice
end SecureSession
end KaiOs.Network
