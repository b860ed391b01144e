import KaiOs.Network.Auth
import KaiOs.Network.SessionIntegrity

/-! One key answers challenges and signs envelopes. Both sign a bare digest of fields with
bars between them, so an answer can be the signature of an envelope. -/
namespace KaiOs.Network
open Utf8 Fields Signature

/-- The hashed bytes of the envelope are the text of a challenge: the sequence bytes are text,
and the payload is text that ends in the decimal number of a nonce. -/
structure Answerable (e : Envelope) : Prop where
  seq : (decode (u64Be e.seq)).isSome
  payload : ∃ nonce : UInt64, e.payload = utf8 (toString nonce.toNat) ∨
    ∃ front, e.payload = utf8 (front ++ "|" ++ toString nonce.toNat)

/-- A session takes the envelope if some answer to a challenge signs it. -/
structure Signable (s : SecureSession) (e : Envelope) : Prop where
  session : e.sessionId = s.sessionId
  fresh : s.lastRemoteSeq < e.seq
  answerable : Answerable e

theorem input_of_texts {e : Envelope} {seq payload : String} (hs : utf8 seq = u64Be e.seq)
    (hp : utf8 payload = e.payload) :
    e.input = utf8 (e.sessionId ++ "|" ++ seq ++ "|" ++ e.fromPeerId ++ "|" ++ payload) := by
  have bar : utf8 "|" = [124] := rfl
  simp only [Envelope.input, utf8_append, hs, hp, bar, List.append_assoc, List.cons_append, List.nil_append]

theorem texts_of_input {e : Envelope} {t : String} (h : utf8 t = e.input) :
    ∃ seq payload, utf8 seq = u64Be e.seq ∧ utf8 payload = e.payload ∧
      t = e.sessionId ++ "|" ++ seq ++ "|" ++ e.fromPeerId ++ "|" ++ payload := by
  have small : '|'.val.toNat < 128 := by decide
  obtain ⟨x, rest, rfl, first, later⟩ := utf8_cut small h
  obtain ⟨seq, rest, rfl, second, later⟩ := utf8_cut small later
  obtain ⟨y, payload, rfl, third, last⟩ := utf8_cut small later
  rw [utf8_inj] at first third
  refine ⟨seq, payload, second, last, ?_⟩
  rw [first, third]
  simp only [String.append_assoc]
  rfl

theorem answerable_iff {e : Envelope} : (∃ c : Challenge, utf8 c.text = e.input) ↔ Answerable e := by
  have bar : "|".toList = ['|'] := rfl
  constructor
  · rintro ⟨c, same⟩
    obtain ⟨seq, payload, hs, hp, text⟩ := texts_of_input same
    have nonce : Free '|' (toString c.nonce.toNat) := free_decimal rfl _
    refine ⟨by rw [← hs, decode_utf8, Option.isSome_some], c.nonce, ?_⟩
    by_cases plain : Free '|' payload
    · exact .inl (by rw [← hp, (last_field bar nonce plain text).2])
    · obtain ⟨front, back, rfl, free⟩ := exists_last_field bar plain
      simp only [← String.append_assoc] at text
      exact .inr ⟨front, by rw [← hp, (last_field bar nonce free text).2]⟩
  · rintro ⟨hs, nonce, payload⟩
    obtain ⟨seq, decoded⟩ := Option.isSome_iff_exists.mp hs
    have bytes := decode_eq_some.mp decoded
    rcases payload with payload | ⟨front, payload⟩
    · refine ⟨⟨e.sessionId ++ "|" ++ seq, e.fromPeerId, nonce⟩, ?_⟩
      rw [input_of_texts bytes payload.symm]
      rfl
    · refine ⟨⟨e.sessionId ++ "|" ++ seq, e.fromPeerId ++ "|" ++ front, nonce⟩, ?_⟩
      rw [input_of_texts bytes payload.symm]
      simp only [Challenge.text, barText, String.append_assoc]

section
variable {Keypair : Type} {E : CryptoExternals Keypair} {s : SecureSession} {k : Keypair} {e : Envelope}

/-- No answer to any challenge is accepted as the signature of the envelope, exactly if the
session would refuse the envelope anyway or it is no challenge's text. -/
theorem respond_refused_iff (key : s.remotePublic = publicBytes E k)
    (unmatched : Unmatched E.digest {e.input})
    (correct : E.ed25519.CorrectAt k (envelopeBytes E e))
    (bound : E.ed25519.BoundAt k (envelopeBytes E e)) :
    (∀ c payload, (s.receive E ⟨e, (respond E c k).signature⟩).2 ≠ .ok payload) ↔ ¬ Signable s e := by
  constructor
  · intro refused signable
    obtain ⟨c, same⟩ := answerable_iff.mpr signable.answerable
    have digest : challengePayload E c = envelopeBytes E e := congrArg E.digest same
    have valid : verifySignature E s.remotePublic (envelopeBytes E e)
        (sign E k (challengePayload E c)) = true := by
      rw [key, digest]
      exact correct
    have ok : s.Accepts E ⟨e, (respond E c k).signature⟩ :=
      ⟨signable.session, signable.fresh, _, tryInto_val _, valid⟩
    exact refused c _ (by rw [SecureSession.receive_of_accepts ok])
  · intro plain c payload done
    have ok := SecureSession.receive_ok_iff.mp ⟨payload, done⟩
    obtain ⟨sig, array, valid⟩ := ok.authentic
    cases (tryInto_val _).symm.trans array
    rw [key] at valid
    have text := unmatched e.input rfl _ (bound _ valid)
    exact plain ⟨ok.session, ok.fresh, answerable_iff.mp ⟨c, text⟩⟩

end

section Alice
open SecureSession

/-- A challenge whose text is the hashed bytes of Alice's first envelope with the payload `5`. -/
def forgingChallenge : Challenge := ⟨"s|\x00\x00\x00\x00\x00\x00\x00\x01", "alice", 5⟩

/-- Alice's answer to it is accepted as that envelope. -/
theorem respond_signs_envelope :
    Unmatched (aliceExternals (utf8 "5")).digest {(aliceEnvelope (utf8 "5")).input} ∧
    (aliceExternals (utf8 "5")).ed25519.BoundAt aliceKey
      (envelopeBytes (aliceExternals (utf8 "5")) (aliceEnvelope (utf8 "5"))) ∧
    ((new "s" "bob" "alice" aliceKey).receive (aliceExternals (utf8 "5"))
      ⟨aliceEnvelope (utf8 "5"), (respond (aliceExternals (utf8 "5")) forgingChallenge aliceKey).signature⟩).2 =
      .ok (utf8 "5") := by
  have same : utf8 forgingChallenge.text = (aliceEnvelope (utf8 "5")).input := by decide
  have digest : challengePayload (aliceExternals (utf8 "5")) forgingChallenge =
      envelopeBytes (aliceExternals (utf8 "5")) (aliceEnvelope (utf8 "5")) :=
    congrArg (aliceExternals (utf8 "5")).digest same
  have valid : verifySignature (aliceExternals (utf8 "5")) aliceKey
      (envelopeBytes (aliceExternals (utf8 "5")) (aliceEnvelope (utf8 "5")))
      (sign (aliceExternals (utf8 "5")) aliceKey
        (challengePayload (aliceExternals (utf8 "5")) forgingChallenge)) = true := by
    rw [digest]
    exact pinned_correct aliceKey (List.mem_singleton.mpr rfl)
  have ok : (new "s" "bob" "alice" aliceKey).Accepts (aliceExternals (utf8 "5"))
      ⟨aliceEnvelope (utf8 "5"), (respond (aliceExternals (utf8 "5")) forgingChallenge aliceKey).signature⟩ :=
    ⟨rfl, by decide, _, tryInto_val _, valid⟩
  refine ⟨?_, pinned_bound aliceKey (List.mem_singleton.mpr rfl) (by decide +kernel), ?_⟩
  · intro input member
    exact alice_unmatched (utf8 "5") (by decide +kernel) input (List.mem_singleton.mpr member)
  rw [receive_of_accepts ok]
  rfl

theorem respond_refused_hello :
    (∀ c payload, ((new "s" "bob" "alice" aliceKey).receive (aliceExternals (utf8 "hello"))
      ⟨aliceEnvelope (utf8 "hello"), (respond (aliceExternals (utf8 "hello")) c aliceKey).signature⟩).2 ≠
      .ok payload) ↔
    ¬ Signable (new "s" "bob" "alice" aliceKey) (aliceEnvelope (utf8 "hello")) :=
  respond_refused_iff rfl
    (fun input member => alice_unmatched (utf8 "hello") (by decide +kernel) input (List.mem_singleton.mpr member))
    (pinned_correct aliceKey (List.mem_singleton.mpr rfl))
    (pinned_bound aliceKey (List.mem_singleton.mpr rfl) (by decide +kernel))

end Alice
end KaiOs.Network
