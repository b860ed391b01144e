import KaiOs.Network.Restarts
import KaiOs.Network.SignatureDomains
import Mathlib.Logic.Relation

/-! Nodes that authenticate each other over a network in which everything can be read, held back, repeated and made
up, except signatures. What a node believes about a session is what the other one has done. -/
namespace KaiOs.Network
open Link Utf8 Fields Signature

/-- The ids contain no separator. Those derived from keys do not. -/
structure Challenge.Plain (c : Challenge) : Prop where
  fromPeer : Free '|' c.fromPeerId
  toPeer : Free '|' c.toPeerId

def bars (s : String) : ℕ := s.toList.count '|'

theorem bars_append (s t : String) : bars (s ++ t) = bars s + bars t := by
  rw [bars, String.toList_append, List.count_append]
  rfl

theorem bars_eq_zero {s : String} : bars s = 0 ↔ Free '|' s := List.count_eq_zero

theorem bars_decimal (n : ℕ) : bars (toString n) = 0 := bars_eq_zero.mpr (free_decimal rfl n)

theorem bars_bar : bars "|" = 1 := rfl

/-- With plain ids the text tells the challenge, also from challenges with other ids. -/
theorem Challenge.Plain.text_inj {c c' : Challenge} (plain : c.Plain) (same : c.text = c'.text) : c = c' := by
  have bar : "|".toList = ['|'] := rfl
  obtain ⟨ids, nonce⟩ := last_field bar (free_decimal rfl _) (free_decimal rfl _) same
  have counts := congrArg bars ids
  simp only [bars_append, bars_bar, bars_eq_zero.mpr plain.fromPeer, bars_eq_zero.mpr plain.toPeer] at counts
  have fromPeer : Free '|' c'.fromPeerId := bars_eq_zero.mp (by omega)
  obtain ⟨first, second⟩ := first_field bar plain.fromPeer fromPeer ids
  obtain ⟨_, _, _⟩ := c
  obtain ⟨_, _, _⟩ := c'
  cases first
  cases second
  cases UInt64.toNat_inj.mp (decimal_inj nonce)
  rfl

/-- An envelope has more separators than a challenge with plain ids. -/
theorem Challenge.Plain.ne_input {c : Challenge} (plain : c.Plain) (e : Envelope) : utf8 c.text ≠ e.input := by
  intro same
  obtain ⟨seq, payload, -, -, text⟩ := texts_of_input same
  have counts := congrArg bars text
  simp only [Challenge.text, barText, bars_append, bars_bar, bars_eq_zero.mpr plain.fromPeer,
    bars_eq_zero.mpr plain.toPeer, bars_decimal] at counts
  omega

/-- Session ids without separators are told by the hashed bytes. -/
theorem sessionId_of_input {e e' : Envelope} (plain : Free '|' e.sessionId) (plain' : Free '|' e'.sessionId)
    (same : e.input = e'.input) : e.sessionId = e'.sessionId := by
  obtain ⟨ids, -⟩ | ⟨u, longer, -⟩ | ⟨u, longer, -⟩ := field_cuts (c := '|') (by decide) same
  · exact ids
  · apply absurd plain'
    simp [Free, longer]
  · apply absurd plain
    simp [Free, longer]

/-- What the holder of a key signs: the answer to a challenge, or an envelope in a session that is opened for one. -/
inductive Deed where
  | answered (c : Challenge)
  | sent (c : Challenge) (e : Envelope)

def Deed.input : Deed → Bytes
  | .answered c => utf8 c.text
  | .sent _ e => e.input

theorem Deed.input_sent (c : Challenge) (e : Envelope) : (Deed.sent c e).input = e.input := rfl

/-- An envelope that a session has accepted, with the challenge and the key of the session. -/
structure Receipt where
  challenge : Challenge
  remotePublic : U8Array 32
  envelope : Envelope

/-- What is in the memory of a node, and what it has ever accepted, received and signed. -/
structure Node where
  generator : ChallengeGenerator
  registry : AuthRegistry
  issued : List Challenge
  sessions : List (Challenge × SecureSession)
  accepted : List VerifyCall
  received : List Receipt
  deeds : List Deed

namespace Node

def start : Node := ⟨.new, .new, [], [], [], [], []⟩

def restarted (n : Node) : Node :=
  { start with accepted := n.accepted, received := n.received, deeds := n.deeds }

/-- The node has answered the challenge, or has accepted an answer to it. -/
def Entered (n : Node) (c : Challenge) : Prop :=
  .answered c ∈ n.deeds ∨ ∃ call ∈ n.accepted, call.challenge = c

/-- What a node has done stays done. -/
structure Grows (n n' : Node) : Prop where
  deeds : n.deeds ⊆ n'.deeds
  accepted : n.accepted ⊆ n'.accepted

theorem Grows.refl (n : Node) : n.Grows n := ⟨List.Subset.refl _, List.Subset.refl _⟩

theorem Grows.entered {n n' : Node} {c : Challenge} (grows : n.Grows n') (entered : n.Entered c) : n'.Entered c := by
  obtain answered | ⟨call, member, same⟩ := entered
  · exact .inl (grows.deeds answered)
  · exact .inr ⟨call, grows.accepted member, same⟩

end Node

section
variable {ι Keypair : Type} (E : CryptoExternals Keypair) (keys : ι → Keypair)

/-- A session for a challenge. -/
def opened (i : ι) (c : Challenge) (remotePeerId : String) (remotePublic : U8Array 32) : Challenge × SecureSession :=
  (c, .new (challengeId E c) (peerId E (keys i)) remotePeerId remotePublic)

/-- What the nodes have signed so far. -/
def signedBy (w : ι → Node) (i : ι) : Set Bytes := {m | ∃ d ∈ (w i).deeds, E.digest d.input = m}

/-- Nobody can make up a signature: what passes under a node's key is about something that this node has signed. -/
def Obtainable (w : ι → Node) (signature : Bytes) : Prop :=
  ∀ sig, tryInto 64 signature = some sig → E.ed25519.Obtainable keys (signedBy E w) sig

/-- The node has made the challenge for another one. -/
def Initiated (i : ι) (c : Challenge) : Prop :=
  c.fromPeerId = peerId E (keys i) ∧ ∃ j, c.toPeerId = peerId E (keys j)

/-- If the key is a node's, this node has signed something with the digest of the input. -/
def Vouched (w : ι → Node) (remotePublic : U8Array 32) (input : Bytes) : Prop :=
  ∀ j, remotePublic = publicBytes E (keys j) → ∃ d ∈ (w j).deeds, E.digest d.input = E.digest input

/-- What a node holds and has done is accounted for by what all have done. -/
structure Accounted (w : ι → Node) (i : ι) (n : Node) : Prop where
  issued : ∀ c ∈ n.issued, Initiated E keys i c
  accepted : ∀ call ∈ n.accepted, Initiated E keys i call.challenge ∧
    Vouched E keys w call.responderPublic (utf8 call.challenge.text)
  opened : ∀ cs ∈ n.sessions, (w i).Entered cs.1 ∧ cs.2.sessionId = challengeId E cs.1 ∧
    cs.2.localPeerId = peerId E (keys i)
  sent : ∀ c e, .sent c e ∈ n.deeds → (w i).Entered c ∧ e.sessionId = challengeId E c ∧
    e.fromPeerId = peerId E (keys i)
  received : ∀ r ∈ n.received, (w i).Entered r.challenge ∧ r.envelope.sessionId = challengeId E r.challenge ∧
    Vouched E keys w r.remotePublic r.envelope.input

section
variable {E keys} {w w' : ι → Node} {i : ι} {n : Node}

theorem Vouched.mono {remotePublic : U8Array 32} {input : Bytes} (grows : ∀ j, (w j).Grows (w' j))
    (vouched : Vouched E keys w remotePublic input) : Vouched E keys w' remotePublic input := by
  intro j key
  obtain ⟨d, member, digest⟩ := vouched j key
  exact ⟨d, (grows j).deeds member, digest⟩

theorem Accounted.mono (grows : ∀ j, (w j).Grows (w' j)) (held : Accounted E keys w i n) :
    Accounted E keys w' i n where
  issued := held.issued
  accepted call member := ⟨(held.accepted call member).1, (held.accepted call member).2.mono grows⟩
  opened cs member := ⟨(grows i).entered (held.opened cs member).1, (held.opened cs member).2⟩
  sent c e member := ⟨(grows i).entered (held.sent c e member).1, (held.sent c e member).2⟩
  received r member := by
    obtain ⟨entered, session, vouched⟩ := held.received r member
    exact ⟨(grows i).entered entered, session, vouched.mono grows⟩

/-- If a signature that can be had is accepted under the key of a node, the node vouches for what it signs. -/
theorem vouched_of_obtainable {signature : Bytes} (obtainable : Obtainable E keys w signature)
    {remotePublic : U8Array 32} {input : Bytes} (signed : ∃ sig, tryInto 64 signature = some sig ∧
      verifySignature E remotePublic (E.digest input) sig = true) : Vouched E keys w remotePublic input := by
  rintro j rfl
  obtain ⟨sig, array, valid⟩ := signed
  exact obtainable sig array j _ valid

end

variable [DecidableEq ι]

/-- The calls that do something. What is refused changes nothing. -/
inductive AuthStep (w : ι → Node) : (ι → Node) → Prop
  | issue (i j : ι) (generator : ChallengeGenerator) (c : Challenge)
      (next : (w i).generator.next (peerId E (keys i)) (peerId E (keys j)) = some (generator, c)) :
      AuthStep w (Function.update w i { w i with generator := generator, issued := (w i).issued ++ [c] })
  /-- Any challenge is answered, whoever has made it. -/
  | answer (i : ι) (c : Challenge) (remotePublic : U8Array 32) :
      AuthStep w (Function.update w i { w i with
        sessions := (w i).sessions ++ [opened E keys i c c.fromPeerId remotePublic]
        deeds := (w i).deeds ++ [.answered c] })
  | accept (i : ι) (call : VerifyCall) (registry : AuthRegistry) (issued : call.challenge ∈ (w i).issued)
      (obtainable : Obtainable E keys w call.response.signature)
      (verified : (w i).registry.verify E call = (registry, .ok ())) :
      AuthStep w (Function.update w i { w i with
        registry := registry
        sessions := (w i).sessions ++ [opened E keys i call.challenge call.challenge.toPeerId call.responderPublic]
        accepted := (w i).accepted ++ [call] })
  | send (i : ι) (n : ℕ) (c : Challenge) (s s' : SecureSession) (payload : Bytes) (signed : SignedEnvelope)
      (held : (w i).sessions[n]? = some (c, s)) (sent : s.send E (keys i) payload = some (s', signed)) :
      AuthStep w (Function.update w i { w i with
        sessions := (w i).sessions.set n (c, s')
        deeds := (w i).deeds ++ [.sent c signed.envelope] })
  | receive (i : ι) (n : ℕ) (c : Challenge) (s s' : SecureSession) (payload : Bytes) (signed : SignedEnvelope)
      (held : (w i).sessions[n]? = some (c, s)) (obtainable : Obtainable E keys w signed.signature)
      (taken : s.receive E signed = (s', .ok payload)) :
      AuthStep w (Function.update w i { w i with
        sessions := (w i).sessions.set n (c, s')
        received := (w i).received ++ [⟨c, s.remotePublic, signed.envelope⟩] })
  | restart (i : ι) : AuthStep w (Function.update w i (w i).restarted)

variable {E keys} {w w' : ι → Node} {i : ι} {n : Node}

theorem grows_update (grows : (w i).Grows n) (j : ι) : (w j).Grows (Function.update w i n j) := by
  rw [Function.update_apply]
  split_ifs with here
  · rw [here]
    exact grows
  · exact .refl _

theorem entered_update {c : Challenge} (entered : n.Entered c) : (Function.update w i n i).Entered c := by
  rwa [Function.update_self]

theorem accounted_update (held : ∀ j, Accounted E keys w j (w j)) (grows : (w i).Grows n)
    (own : Accounted E keys (Function.update w i n) i (w i) → Accounted E keys (Function.update w i n) i n)
    (j : ι) : Accounted E keys (Function.update w i n) j (Function.update w i n j) := by
  have before := (held j).mono (grows_update grows)
  by_cases here : j = i
  · subst here
    rw [Function.update_self]
    exact own before
  · rw [Function.update_of_ne here]
    exact before

theorem forall_mem_concat {α : Type*} {p : α → Prop} {xs : List α} {x : α} (old : ∀ y ∈ xs, p y) (new : p x) :
    ∀ y ∈ xs ++ [x], p y := by
  intro y member
  obtain before | last := List.mem_append.mp member
  · exact old y before
  · rwa [List.mem_singleton.mp last]

theorem AuthStep.accounted (step : AuthStep E keys w w') (held : ∀ j, Accounted E keys w j (w j)) :
    ∀ j, Accounted E keys w' j (w' j) := by
  cases step with
  | issue i j generator c next =>
      obtain ⟨-, -, made⟩ := ChallengeGenerator.next_eq_some.mp next
      refine accounted_update held ⟨List.Subset.refl _, List.Subset.refl _⟩ fun same => { same with issued := ?_ }
      refine forall_mem_concat same.issued ?_
      rw [← made]
      exact ⟨rfl, j, rfl⟩
  | answer i c remotePublic =>
      refine accounted_update held ⟨List.subset_append_left _ _, List.Subset.refl _⟩ fun same =>
        { same with opened := ?_, sent := ?_ }
      · refine forall_mem_concat same.opened ⟨entered_update (.inl ?_), rfl, rfl⟩
        exact List.mem_append_right _ (.head _)
      · intro c' e member
        obtain old | new := List.mem_append.mp member
        · exact same.sent c' e old
        · cases List.mem_singleton.mp new
  | accept i call registry issued obtainable verified =>
      have passes := AuthRegistry.verify_ok_iff.mp (congrArg Prod.snd verified)
      have vouched : Vouched E keys w call.responderPublic (utf8 call.challenge.text) :=
        vouched_of_obtainable obtainable passes.signed
      refine accounted_update held ⟨List.Subset.refl _, List.subset_append_left _ _⟩ fun same =>
        { same with accepted := ?_, opened := ?_ }
      · refine forall_mem_concat same.accepted ⟨same.issued _ issued, vouched.mono (grows_update ?_)⟩
        exact ⟨List.Subset.refl _, List.subset_append_left _ _⟩
      · refine forall_mem_concat same.opened ⟨entered_update (.inr ⟨call, ?_, rfl⟩), rfl, rfl⟩
        exact List.mem_append_right _ (.head _)
  | send i n c s s' payload signed found sent =>
      have sends := SecureSession.send_sends sent
      have sameId : s'.sessionId = s.sessionId := by rw [sends.same]
      have sameOwner : s'.localPeerId = s.localPeerId := by rw [sends.same]
      refine accounted_update held ⟨List.subset_append_left _ _, List.Subset.refl _⟩ fun same => ?_
      obtain ⟨entered, sessionId, sender⟩ := same.opened (c, s) (List.mem_of_getElem? found)
      refine { same with opened := ?_, sent := ?_ }
      · intro cs member
        obtain old | rfl := List.mem_or_eq_of_mem_set member
        · exact same.opened cs old
        · exact ⟨entered, sameId.trans sessionId, sameOwner.trans sender⟩
      · intro c' e member
        obtain old | new := List.mem_append.mp member
        · exact same.sent c' e old
        · cases List.mem_singleton.mp new
          have fields := sends.envelope
          exact ⟨entered, (congrArg Envelope.sessionId fields).trans sessionId,
            (congrArg Envelope.fromPeerId fields).trans sender⟩
  | receive i n c s s' payload signed found obtainable taken =>
      have accepts := SecureSession.receive_ok_iff.mp ⟨payload, congrArg Prod.snd taken⟩
      have last : s' = { s with lastRemoteSeq := signed.envelope.seq } := by
        rw [SecureSession.receive_of_accepts accepts] at taken
        exact (Prod.mk.inj taken).1.symm
      have vouched : Vouched E keys w s.remotePublic signed.envelope.input :=
        vouched_of_obtainable obtainable accepts.authentic
      refine accounted_update held ⟨List.Subset.refl _, List.Subset.refl _⟩ fun same => ?_
      obtain ⟨entered, sessionId, sender⟩ := same.opened (c, s) (List.mem_of_getElem? found)
      refine { same with opened := ?_, received := ?_ }
      · intro cs member
        obtain old | rfl := List.mem_or_eq_of_mem_set member
        · exact same.opened cs old
        · exact ⟨entered, (congrArg SecureSession.sessionId last).trans sessionId,
            (congrArg SecureSession.localPeerId last).trans sender⟩
      · refine forall_mem_concat same.received ⟨entered, accepts.session.trans sessionId, vouched.mono ?_⟩
        exact grows_update ⟨List.Subset.refl _, List.Subset.refl _⟩
  | restart i =>
      refine accounted_update held ⟨List.Subset.refl _, List.Subset.refl _⟩ fun same =>
        { same with issued := ?_, opened := ?_ }
      · exact fun c member => absurd member List.not_mem_nil
      · exact fun cs member => absurd member List.not_mem_nil

theorem accounted_run (run : Relation.ReflTransGen (AuthStep E keys) (fun _ => .start) w) :
    ∀ j, Accounted E keys w j (w j) := by
  induction run with
  | refl =>
      intro j
      refine ⟨?_, ?_, ?_, ?_, ?_⟩
      · exact fun c member => absurd member List.not_mem_nil
      · exact fun call member => absurd member List.not_mem_nil
      · exact fun cs member => absurd member List.not_mem_nil
      · exact fun c e member => absurd member List.not_mem_nil
      · exact fun r member => absurd member List.not_mem_nil
  | tail _ step ih => exact step.accounted ih

/-- What has been hashed for the signatures and the session ids. -/
def hashed (w : ι → Node) : Set Bytes :=
  {input | ∃ i, (∃ d ∈ (w i).deeds, d.input = input) ∨ (∃ call ∈ (w i).accepted, utf8 call.challenge.text = input) ∨
    ∃ r ∈ (w i).received, r.envelope.input = input}

omit [DecidableEq ι] in
theorem hashed_of_entered {c : Challenge} (entered : (w i).Entered c) : utf8 c.text ∈ hashed w := by
  obtain answered | ⟨call, member, rfl⟩ := entered
  · exact ⟨i, .inl ⟨_, answered, rfl⟩⟩
  · exact ⟨i, .inr (.inl ⟨call, member, rfl⟩)⟩

omit [DecidableEq ι] in
theorem free_peerId (i : ι) : Free '|' (peerId E (keys i)) := free_hex (by decide) _

omit [DecidableEq ι] in
theorem Initiated.plain {c : Challenge} (initiated : Initiated E keys i c) : c.Plain := by
  obtain ⟨fromPeer, j, toPeer⟩ := initiated
  refine ⟨?_, ?_⟩
  · rw [fromPeer]
    exact free_peerId i
  · rw [toPeer]
    exact free_peerId j

theorem entered_plain (run : Relation.ReflTransGen (AuthStep E keys) (fun _ => .start) w)
    (plain : ∀ c, .answered c ∈ (w i).deeds → c.Plain) {c : Challenge}
    (entered : (w i).Entered c) : c.Plain := by
  obtain answered | ⟨call, member, rfl⟩ := entered
  · exact plain c answered
  · exact ((accounted_run run i).accepted call member).1.plain

/-- The other node has sent the same bytes under the same number in a session for the same challenge; if the envelope
names it as the sender, it has sent this envelope; and if the receiver has made the challenge, it has answered it. -/
structure Agreed (E : CryptoExternals Keypair) (keys : ι → Keypair) (w : ι → Node) (i j : ι) (r : Receipt)
    (e : Envelope) : Prop where
  sent : .sent r.challenge e ∈ (w j).deeds
  seq : e.seq = r.envelope.seq
  input : e.input = r.envelope.input
  named : r.envelope.fromPeerId = peerId E (keys j) → e = r.envelope
  answered : r.challenge.fromPeerId = peerId E (keys i) → peerId E (keys i) ≠ peerId E (keys j) →
    .answered r.challenge ∈ (w j).deeds

section
variable (run : Relation.ReflTransGen (AuthStep E keys) (fun _ => .start) w)
  (distinct : Set.InjOn E.digest (hashed w))
include run distinct

/-- Whoever's key an accepted answer has been checked with has answered exactly this challenge, which the accepting
node has made. -/
theorem handshake_agrees {call : VerifyCall} (accepted : call ∈ (w i).accepted) {j : ι}
    (key : call.responderPublic = publicBytes E (keys j)) :
    .answered call.challenge ∈ (w j).deeds ∧ call.challenge.fromPeerId = peerId E (keys i) := by
  obtain ⟨initiated, vouched⟩ := (accounted_run run i).accepted call accepted
  refine ⟨?_, initiated.1⟩
  obtain ⟨d, done, digest⟩ := vouched j key
  have same := distinct ⟨j, .inl ⟨d, done, rfl⟩⟩ ⟨i, .inr (.inl ⟨call, accepted, rfl⟩)⟩ digest
  cases d with
  | answered c =>
      rw [initiated.plain.text_inj (utf8_inj.mp same.symm)]
      exact done
  | sent c e => exact absurd same.symm (initiated.plain.ne_input e)

/-- What a node has accepted in a session for a challenge, the holder of the session's key has sent in a session for
the same challenge. -/
theorem session_agrees (plain : ∀ j c, .answered c ∈ (w j).deeds → c.Plain) {r : Receipt}
    (received : r ∈ (w i).received) {j : ι} (key : r.remotePublic = publicBytes E (keys j)) :
    ∃ e, Agreed E keys w i j r e := by
  obtain ⟨entered, session, vouched⟩ := (accounted_run run i).received r received
  obtain ⟨d, done, digest⟩ := vouched j key
  have same := distinct ⟨j, .inl ⟨d, done, rfl⟩⟩ ⟨i, .inr (.inr ⟨r, received, rfl⟩)⟩ digest
  cases d with
  | answered c => exact absurd same ((plain j c done).ne_input r.envelope)
  | sent c e =>
      obtain ⟨entered', session', sender⟩ := (accounted_run run j).sent c e done
      have ids : e.sessionId = r.envelope.sessionId := by
        refine sessionId_of_input ?_ ?_ same
        · rw [session']
          exact free_hex (by decide) _
        · rw [session]
          exact free_hex (by decide) _
      have digests := hex_inj (session'.symm.trans (ids.trans session))
      have texts := distinct (hashed_of_entered entered') (hashed_of_entered entered) digests
      obtain rfl := (entered_plain run (plain i) entered).text_inj (utf8_inj.mp texts.symm)
      obtain ⟨seq, fields⟩ := (SecureSession.input_cuts ids).mp same
      refine ⟨e, done, seq, same, fun named => ?_, fun initiator other => ?_⟩
      · rw [named, sender, List.append_cancel_left_eq, List.cons.injEq] at fields
        calc
          e = ⟨e.sessionId, e.seq, e.fromPeerId, e.payload⟩ := rfl
          _ = ⟨r.envelope.sessionId, r.envelope.seq, r.envelope.fromPeerId, r.envelope.payload⟩ := by
            rw [ids, seq, sender, named, fields.2]
          _ = r.envelope := rfl
      · obtain answered | ⟨call, member, made⟩ := entered'
        · exact answered
        · have own := ((accounted_run run j).accepted call member).1.1
          rw [made, initiator] at own
          exact absurd own other

end

end

section Alice

def aliceBobInputs : List Bytes := [utf8 (aliceBobChallenge 1).text, utf8 (aliceBobChallenge 2).text, greeting.input]

theorem aliceBob_apart : (aliceBobInputs.map Sha256.digestBytes ++ [List.replicate 32 0]).Nodup := by
  decide +kernel

theorem aliceBobKeys_inj {side other : Side} (same : aliceBobKeys side = aliceBobKeys other) : side = other := by
  revert same
  cases side
  · cases other
    · exact fun _ => rfl
    · decide
  · cases other
    · decide
    · exact fun _ => rfl

theorem aliceBob_zero {x : Bytes} (member : x ∈ aliceBobInputs) : Sha256.digestBytes x ≠ List.replicate 32 0 :=
  (List.nodup_append.mp aliceBob_apart).2.2 _ (List.mem_map_of_mem member) _ List.mem_cons_self

theorem aliceBob_obtainable {w : Side → Node} {side : Side} {d : Deed} (done : d ∈ (w side).deeds) :
    Obtainable aliceBobExternals aliceBobKeys w
      (sign aliceBobExternals (aliceBobKeys side) (aliceBobExternals.digest d.input)).val := by
  intro sig array other m valid
  rw [tryInto_val, Option.some.injEq] at array
  subst array
  obtain ⟨known, marks⟩ := ledger_verify.mp valid
  cases aliceBobKeys_inj (mark_key marks)
  obtain ⟨x, member, rfl⟩ := List.mem_map.mp known
  rw [← pinned_digest member] at valid ⊢
  exact ⟨d, done, pinned_bound _ member (aliceBob_zero member) _ valid⟩

theorem aliceBob_injOn : Set.InjOn aliceBobExternals.digest {x | x ∈ aliceBobInputs} := by
  intro x member y member' same
  have digests : Sha256.digestBytes x = Sha256.digestBytes y := by
    rw [← pinned_digest member, ← pinned_digest member']
    exact same
  exact List.inj_on_of_nodup_map (List.nodup_append.mp aliceBob_apart).1 member member' digests

def pair (alice bob : Node) : Side → Node
  | .left => alice
  | .right => bob

theorem update_alice (alice bob n : Node) : Function.update (pair alice bob) .left n = pair n bob := by
  funext side
  cases side
  · rfl
  · rfl

theorem update_bob (alice bob n : Node) : Function.update (pair alice bob) .right n = pair alice n := by
  funext side
  cases side
  · rfl
  · rfl

def aliceBobCall : VerifyCall := ⟨aliceBobChallenge 1, answer 1, bobKey⟩

/-- Alice has accepted Bob's answer. -/
def aliceIn : Node where
  generator := ⟨1⟩
  registry := AuthRegistry.new.record aliceBobCall
  issued := [aliceBobChallenge 1]
  sessions := [(aliceBobChallenge 1, session aliceBobExternals aliceBobKeys (aliceBobChallenge 1) .left)]
  accepted := [aliceBobCall]
  received := []
  deeds := []

/-- Bob has answered Alice's challenge. -/
def bobIn : Node :=
  { Node.start with
    sessions := [(aliceBobChallenge 1, session aliceBobExternals aliceBobKeys (aliceBobChallenge 1) .right)]
    deeds := [.answered (aliceBobChallenge 1)] }

theorem aliceBob_passes : AuthRegistry.new.Passes aliceBobExternals aliceBobCall := by
  have fresh : AuthRegistry.new.last (hex bobKey.val) < 1 := by
    rw [AuthRegistry.last_new]
    decide
  have answered : Link.start.Answered aliceBobExternals aliceBobKeys .left (answer 1) :=
    aliceBob_answered rfl List.mem_cons_self fresh
  unfold Answered at answered
  rw [aliceBob_next rfl] at answered
  exact answered

theorem answer_signature (nonce : UInt64) : (answer nonce).signature = (sign aliceBobExternals (aliceBobKeys .right)
    (aliceBobExternals.digest (Deed.answered (aliceBobChallenge nonce)).input)).val := rfl

theorem introduced : Relation.ReflTransGen (AuthStep aliceBobExternals aliceBobKeys) (fun _ => .start)
    (pair aliceIn bobIn) := by
  have alone : (fun _ : Side => Node.start) = pair .start .start := by
    funext side
    cases side
    · rfl
    · rfl
  let asked : Node := { Node.start with generator := ⟨1⟩, issued := [aliceBobChallenge 1] }
  have issue : AuthStep aliceBobExternals aliceBobKeys (pair .start .start) (pair asked .start) := by
    rw [← update_alice .start .start asked]
    exact .issue Side.left Side.right ⟨1⟩ (aliceBobChallenge 1) rfl
  have answers : AuthStep aliceBobExternals aliceBobKeys (pair asked .start) (pair asked bobIn) := by
    rw [← update_bob asked .start bobIn]
    exact .answer Side.right (aliceBobChallenge 1) aliceKey
  have obtainable : Obtainable aliceBobExternals aliceBobKeys (pair asked bobIn) aliceBobCall.response.signature := by
    have done : Deed.answered (aliceBobChallenge 1) ∈ (pair asked bobIn .right).deeds := List.mem_cons_self
    have response : aliceBobCall.response.signature = (answer 1).signature := rfl
    rw [response, answer_signature]
    exact aliceBob_obtainable done
  have accept : AuthStep aliceBobExternals aliceBobKeys (pair asked bobIn) (pair aliceIn bobIn) := by
    rw [← update_alice asked bobIn aliceIn]
    exact .accept Side.left aliceBobCall _ List.mem_cons_self obtainable
      (AuthRegistry.verify_of_passes aliceBob_passes)
  rw [alone]
  exact ((Relation.ReflTransGen.single issue).tail answers).tail accept

def aliceOut : Node :=
  { aliceIn with
    sessions := [(aliceBobChallenge 1,
      { session aliceBobExternals aliceBobKeys (aliceBobChallenge 1) .left with nextLocalSeq := 2 })]
    deeds := [.sent (aliceBobChallenge 1) greeting] }

/-- Bob has received Alice's greeting. -/
def bobOut : Node :=
  { bobIn with
    sessions := [(aliceBobChallenge 1,
      { session aliceBobExternals aliceBobKeys (aliceBobChallenge 1) .right with lastRemoteSeq := 1 })]
    received := [⟨aliceBobChallenge 1, aliceKey, greeting⟩] }

theorem greeting_signature : signedGreeting.signature = (sign aliceBobExternals (aliceBobKeys .left)
    (aliceBobExternals.digest (Deed.sent (aliceBobChallenge 1) greeting).input)).val := by
  have alice : aliceBobKeys .left = aliceKey := rfl
  rw [signedGreeting, envelopeBytes, Deed.input_sent, alice]

theorem greeted : Relation.ReflTransGen (AuthStep aliceBobExternals aliceBobKeys) (fun _ => .start)
    (pair aliceOut bobOut) := by
  have sent : (session aliceBobExternals aliceBobKeys (aliceBobChallenge 1) .left).send aliceBobExternals aliceKey
      (utf8 "hello") = some ({ session aliceBobExternals aliceBobKeys (aliceBobChallenge 1) .left with
        nextLocalSeq := 2 }, signedGreeting) := by
    obtain ⟨⟨s, signed⟩, sent, rfl⟩ := Option.map_eq_some_iff.mp greeting_sent
    have sends := SecureSession.send_sends sent
    have next : s.nextLocalSeq = 2 := UInt64.toNat_inj.mp sends.next
    rw [sent, sends.same, next]
  have send : AuthStep aliceBobExternals aliceBobKeys (pair aliceIn bobIn) (pair aliceOut bobIn) := by
    rw [← update_alice aliceIn bobIn aliceOut]
    exact .send Side.left 0 (aliceBobChallenge 1) _ _ (utf8 "hello") signedGreeting rfl sent
  have obtainable : Obtainable aliceBobExternals aliceBobKeys (pair aliceOut bobIn) signedGreeting.signature := by
    have done : Deed.sent (aliceBobChallenge 1) greeting ∈ (pair aliceOut bobIn .left).deeds := List.mem_cons_self
    rw [greeting_signature]
    exact aliceBob_obtainable done
  have receive : AuthStep aliceBobExternals aliceBobKeys (pair aliceOut bobIn) (pair aliceOut bobOut) := by
    rw [← update_bob aliceOut bobIn bobOut]
    exact .receive Side.right 0 (aliceBobChallenge 1) _ _ greeting.payload signedGreeting rfl obtainable
      (SecureSession.receive_of_accepts greeting_accepted)
  exact (introduced.tail send).tail receive

theorem greeted_distinct : Set.InjOn aliceBobExternals.digest (hashed (pair aliceOut bobOut)) := by
  have challenge : utf8 (aliceBobChallenge 1).text ∈ aliceBobInputs := List.mem_cons_self
  have message : greeting.input ∈ aliceBobInputs :=
    List.mem_cons_of_mem _ (List.mem_cons_of_mem _ List.mem_cons_self)
  refine aliceBob_injOn.mono ?_
  rintro input ⟨side, ⟨d, done, rfl⟩ | ⟨call, accepted, rfl⟩ | ⟨r, received, rfl⟩⟩
  · cases side with
    | left =>
        cases List.mem_singleton.mp done
        exact message
    | right =>
        cases List.mem_singleton.mp done
        exact challenge
  · cases side with
    | left =>
        cases List.mem_singleton.mp accepted
        exact challenge
    | right => cases accepted
  · cases side with
    | left => cases received
    | right =>
        cases List.mem_singleton.mp received
        exact message

theorem handshake_agrees_alice : .answered (aliceBobChallenge 1) ∈ bobOut.deeds ∧
    (aliceBobChallenge 1).fromPeerId = peerId aliceBobExternals aliceKey := by
  have accepted : aliceBobCall ∈ (pair aliceOut bobOut .left).accepted := List.mem_cons_self
  have key : aliceBobCall.responderPublic = publicBytes aliceBobExternals (aliceBobKeys .right) := rfl
  exact handshake_agrees greeted greeted_distinct accepted key

theorem session_agrees_bob : ∃ e, Agreed aliceBobExternals aliceBobKeys (pair aliceOut bobOut) .right .left
    ⟨aliceBobChallenge 1, aliceKey, greeting⟩ e := by
  have plain : ∀ side c, .answered c ∈ (pair aliceOut bobOut side).deeds → c.Plain := by
    intro side c done
    have same : c = aliceBobChallenge 1 := by
      cases side with
      | left => cases List.mem_singleton.mp done
      | right =>
          cases List.mem_singleton.mp done
          rfl
    rw [same]
    exact ⟨free_hex (by decide) _, free_hex (by decide) _⟩
  have received : ⟨aliceBobChallenge 1, aliceKey, greeting⟩ ∈ (pair aliceOut bobOut .right).received :=
    List.mem_cons_self
  have key : aliceKey = publicBytes aliceBobExternals (aliceBobKeys .left) := rfl
  exact session_agrees greeted greeted_distinct plain received key

end Alice
end KaiOs.Network
