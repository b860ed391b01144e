import KaiOs.Lib.Runs
import KaiOs.Lib.Windows
import KaiOs.Network.Auth
import KaiOs.Network.Session
import Mathlib.Logic.Function.Basic

/-! Two peers that establish sessions again and again, over restarts of their processes. The
counters and the sessions are in memory and are lost; what was accepted is the history. -/
namespace KaiOs.Network
open Runs Utf8 Fields

inductive Side where
  | left
  | right
  deriving DecidableEq

def Side.other : Side → Side
  | .left => .right
  | .right => .left

structure Party where
  generator : ChallengeGenerator
  registry : AuthRegistry
  sessions : List SecureSession
  accepted : List SignedEnvelope

structure Link where
  party : Side → Party
  /-- The challenges whose answers have led to sessions. -/
  established : List Challenge

inductive LinkAction where
  /-- The side issues its next challenge and is given this response. -/
  | establish (side : Side) (response : ChallengeResponse)
  | send (side : Side) (session : ℕ) (payload : Bytes)
  | receive (side : Side) (session : ℕ) (signed : SignedEnvelope)
  | restart (side : Side)

namespace Party

def start : Party := ⟨.new, .new, [], []⟩

def restarted (p : Party) : Party := { start with accepted := p.accepted }

def enter (p : Party) (s : SecureSession) : Party := { p with sessions := p.sessions ++ [s] }

def put (p : Party) (n : ℕ) (s : SecureSession) : Party := { p with sessions := p.sessions.set n s }

/-- The session has accepted an envelope. -/
def take (p : Party) (n : ℕ) (s : SecureSession) (signed : SignedEnvelope) : Party :=
  { p.put n s with accepted := p.accepted ++ [signed] }

/-- A session guards against replay by its id and its last number. -/
def windows (p : Party) : Windows.State String ℕ SignedEnvelope :=
  ⟨p.sessions.map fun s => (s.sessionId, s.lastRemoteSeq.toNat), p.accepted⟩

/-- Nothing is accepted, and no window is opened or moved. -/
structure Quiet (p p' : Party) : Prop where
  windows : p'.windows.windows.Sublist p.windows.windows
  accepted : p'.accepted = p.accepted

theorem quiet_put {p : Party} {n : ℕ} {s s' : SecureSession} (found : p.sessions[n]? = some s)
    (id : s'.sessionId = s.sessionId) (last : s'.lastRemoteSeq = s.lastRemoteSeq) :
    p.Quiet (p.put n s') := by
  obtain ⟨range, same⟩ := List.getElem?_eq_some_iff.mp found
  refine ⟨?_, rfl⟩
  simp only [windows, put, List.map_set, id, last]
  rw [← List.map_set (f := fun s : SecureSession => (s.sessionId, s.lastRemoteSeq.toNat)), ← same,
    List.set_getElem_self]

theorem windows_enter (p : Party) (s : SecureSession) : (p.enter s).windows =
    ⟨p.windows.windows ++ [(s.sessionId, s.lastRemoteSeq.toNat)], p.accepted⟩ := by
  simp only [windows, enter, List.map_append, List.map_singleton]

theorem windows_take (p : Party) (n : ℕ) (s : SecureSession) (signed : SignedEnvelope) :
    (p.take n s signed).windows =
      ⟨p.windows.windows.set n (s.sessionId, s.lastRemoteSeq.toNat), p.accepted ++ [signed]⟩ := by
  simp only [windows, take, put, List.map_set]

theorem window_at {p : Party} {n : ℕ} {s : SecureSession} (found : p.sessions[n]? = some s) :
    p.windows.windows[n]? = some (s.sessionId, s.lastRemoteSeq.toNat) := by
  simp only [windows, List.getElem?_map, found, Option.map_some]

end Party

namespace Link

def start : Link := ⟨fun _ => .start, []⟩

def put (link : Link) (side : Side) (p : Party) : Link :=
  { link with party := Function.update link.party side p }

def reboot (link : Link) (side : Side) : Link := link.put side (link.party side).restarted

section
variable {Keypair : Type} (E : CryptoExternals Keypair) (keys : Side → Keypair)

/-- A session behind a challenge, at one of the sides. -/
def session (c : Challenge) (side : Side) : SecureSession :=
  .new (sessionId E c.fromPeerId c.toPeerId c.nonce) (peerId E (keys side)) (peerId E (keys side.other))
    (publicBytes E (keys side.other))

def enter (link : Link) (c : Challenge) : Link :=
  ⟨fun side => (link.party side).enter (session E keys c side), link.established ++ [c]⟩

def step (link : Link) : LinkAction → Option Link
  | .establish side response =>
      ((link.party side).generator.next (peerId E (keys side)) (peerId E (keys side.other))).map
        fun (generator, c) =>
          match (link.party side).registry.verify E ⟨c, response, publicBytes E (keys side.other)⟩ with
          | (registry, .ok _) =>
              (link.put side { link.party side with generator, registry }).enter E keys c
          | (registry, .error _) => link.put side { link.party side with generator, registry }
  | .send side n payload =>
      (link.party side).sessions[n]?.bind fun s =>
        (s.send E (keys side) payload).map fun (s', _) => link.put side ((link.party side).put n s')
  | .receive side n signed =>
      (link.party side).sessions[n]?.map fun s =>
        match s.receive E signed with
        | (s', .ok _) => link.put side ((link.party side).take n s' signed)
        | (s', .error _) => link.put side ((link.party side).put n s')
  | .restart side => some (link.reboot side)

/-- The challenge that the side issues next. -/
def nextChallenge (link : Link) (side : Side) : Challenge :=
  ⟨peerId E (keys side), peerId E (keys side.other), (link.party side).generator.lastNonce + 1⟩

/-- The response answers the next challenge of the side. -/
def Answered (link : Link) (side : Side) (response : ChallengeResponse) : Prop :=
  (link.party side).registry.Passes E
    ⟨link.nextChallenge E keys side, response, publicBytes E (keys side.other)⟩

/-- No second session is established under a challenge. -/
def Unused (link : Link) : LinkAction → Prop
  | .establish side response => link.Answered E keys side response →
      link.nextChallenge E keys side ∉ link.established
  | _ => True

def challengeId (c : Challenge) : String := sessionId E c.fromPeerId c.toPeerId c.nonce

def ids (link : Link) : List String := link.established.map (challengeId E)

/-- No second session is established under an id. -/
def UnusedId (link : Link) : LinkAction → Prop
  | .establish side response => link.Answered E keys side response →
      challengeId E (link.nextChallenge E keys side) ∉ link.ids E
  | _ => True

def Guarded (link : Link) : Prop :=
  ∀ side, Windows.Guarded (fun e : SignedEnvelope => e.envelope.sessionId)
    (fun e => e.envelope.seq.toNat) (link.ids E) (link.party side).windows

/-- The challenges name the two peers. -/
def Named (link : Link) : Prop :=
  ∀ c ∈ link.established, ∃ side, c.fromPeerId = peerId E (keys side) ∧
    c.toPeerId = peerId E (keys side.other)

end

variable {Keypair : Type} {E : CryptoExternals Keypair} {keys : Side → Keypair}

theorem put_party (link : Link) (side other : Side) (p : Party) :
    (link.put side p).party other = if other = side then p else link.party other :=
  Function.update_apply ..

theorem ids_put (link : Link) (side : Side) (p : Party) : (link.put side p).ids E = link.ids E := rfl

theorem ids_enter (link : Link) (c : Challenge) :
    (link.enter E keys c).ids E = link.ids E ++ [challengeId E c] := List.map_append

theorem enter_party (link : Link) (c : Challenge) (side : Side) :
    (link.enter E keys c).party side = (link.party side).enter (session E keys c side) := rfl

/-- The link behind an established session. -/
def answered (E : CryptoExternals Keypair) (keys : Side → Keypair) (link : Link) (side : Side)
    (response : ChallengeResponse) : Link :=
  (link.put side { link.party side with
    generator := ⟨(link.party side).generator.lastNonce + 1⟩
    registry := (link.party side).registry.record
      ⟨link.nextChallenge E keys side, response, publicBytes E (keys side.other)⟩ }).enter E keys
    (link.nextChallenge E keys side)

theorem next_eq_some {link : Link} {side : Side} {g : ChallengeGenerator} {c : Challenge} :
    (link.party side).generator.next (peerId E (keys side)) (peerId E (keys side.other)) = some (g, c) ↔
      (link.party side).generator.lastNonce.toNat + 1 < 2 ^ 64 ∧
      ⟨(link.party side).generator.lastNonce + 1⟩ = g ∧ link.nextChallenge E keys side = c :=
  ChallengeGenerator.next_eq_some

theorem step_answered {link link' : Link} {side : Side} {response : ChallengeResponse}
    (ok : link.Answered E keys side response)
    (taken : link.step E keys (.establish side response) = some link') :
    link' = link.answered E keys side response := by
  obtain ⟨⟨g, c⟩, next, rfl⟩ := Option.map_eq_some_iff.mp taken
  obtain ⟨_, rfl, rfl⟩ := next_eq_some.mp next
  simp only [AuthRegistry.verify_of_passes ok]
  rfl

theorem answered_step {link : Link} {side : Side} {response : ChallengeResponse}
    (room : (link.party side).generator.lastNonce.toNat + 1 < 2 ^ 64)
    (ok : link.Answered E keys side response) :
    link.step E keys (.establish side response) = some (link.answered E keys side response) := by
  have next : (link.party side).generator.next (peerId E (keys side)) (peerId E (keys side.other)) =
      some (⟨(link.party side).generator.lastNonce + 1⟩, link.nextChallenge E keys side) :=
    next_eq_some.mpr ⟨room, rfl, rfl⟩
  have possible : (link.step E keys (.establish side response)).isSome := by
    rw [step, next]
    rfl
  obtain ⟨link', taken⟩ := Option.isSome_iff_exists.mp possible
  rw [taken, step_answered ok taken]

theorem step_accepts {link : Link} {side : Side} {n : ℕ} {s : SecureSession} {signed : SignedEnvelope}
    (found : (link.party side).sessions[n]? = some s) (ok : s.Accepts E signed) :
    link.step E keys (.receive side n signed) = some (link.put side
      ((link.party side).take n { s with lastRemoteSeq := signed.envelope.seq } signed)) := by
  simp only [step, found, Option.map_some, SecureSession.receive_of_accepts ok]

/-- A step establishes a session at both sides, accepts an envelope, or is quiet. -/
theorem step_cases {link link' : Link} {a : LinkAction} (taken : link.step E keys a = some link') :
    (∃ side response, a = .establish side response ∧ link.Answered E keys side response ∧
      link' = link.answered E keys side response) ∨
    (∃ side n s signed, (link.party side).sessions[n]? = some s ∧ s.Accepts E signed ∧
      link' = link.put side
        ((link.party side).take n { s with lastRemoteSeq := signed.envelope.seq } signed)) ∨
    ∃ side p, link' = link.put side p ∧ (link.party side).Quiet p := by
  cases a with
  | establish side response =>
      rcases AuthRegistry.verify_cases E (link.party side).registry
        ⟨link.nextChallenge E keys side, response, publicBytes E (keys side.other)⟩ with ok | ⟨err, refused⟩
      · exact .inl ⟨side, response, rfl, ok, step_answered ok taken⟩
      · obtain ⟨⟨g, c⟩, next, rfl⟩ := Option.map_eq_some_iff.mp taken
        obtain ⟨_, rfl, rfl⟩ := next_eq_some.mp next
        simp only [refused]
        exact .inr (.inr ⟨side, _, rfl, .refl _, rfl⟩)
  | send side n payload =>
      obtain ⟨s, found, sends⟩ := Option.bind_eq_some_iff.mp taken
      obtain ⟨⟨s', signed⟩, sent, rfl⟩ := Option.map_eq_some_iff.mp sends
      have same := (SecureSession.send_sends sent).same
      refine .inr (.inr ⟨side, _, rfl, Party.quiet_put found ?_ ?_⟩)
      · rw [same]
      · rw [same]
  | receive side n signed =>
      obtain ⟨s, found, rfl⟩ := Option.map_eq_some_iff.mp taken
      rcases SecureSession.receive_cases E s signed with ok | ⟨err, refused⟩
      · rw [SecureSession.receive_of_accepts ok]
        exact .inr (.inl ⟨side, n, s, signed, found, ok, rfl⟩)
      · simp only [refused]
        exact .inr (.inr ⟨side, _, rfl, Party.quiet_put found rfl rfl⟩)
  | restart side =>
      cases taken
      exact .inr (.inr ⟨side, _, rfl, List.nil_sublist _, rfl⟩)

theorem start_guarded : start.Guarded E := fun _ => Windows.guarded_nil

theorem step_guarded (link : Link) (a : LinkAction) (link' : Link) (h : link.Guarded E)
    (unused : link.UnusedId E keys a) (taken : link.step E keys a = some link') : link'.Guarded E := by
  rcases step_cases taken with ⟨side, response, rfl, ok, rfl⟩ |
    ⟨side, n, s, signed, found, ok, rfl⟩ | ⟨side, p, rfl, quiet⟩
  · -- the counters of the initiator change, and both sides have one window more
    intro other
    have entered := (h other).enter (unused ok) 0
    rw [answered, enter_party, ids_enter, Party.windows_enter, put_party]
    split_ifs with here
    · rw [here] at entered
      exact entered
    · exact entered
  · intro other
    rw [put_party, ids_put]
    split_ifs with here
    · have window := Party.window_at found
      rw [← ok.session] at window
      have risen := (h side).take window (UInt64.lt_iff_toNat_lt.mp ok.fresh)
      rw [Party.windows_take, ← ok.session]
      exact risen
    · exact h other
  · intro other
    rw [put_party, ids_put]
    split_ifs with here
    · have kept := (h side).lose quiet.windows
      rw [show (link.party side).windows.taken = p.accepted from quiet.accepted.symm] at kept
      exact kept
    · exact h other

theorem run_established {actions : List LinkAction} {link link' : Link}
    (h : run (step E keys) link actions = some link') :
    link.established ⊆ link'.established ∧ (link.Named E keys → link'.Named E keys) := by
  refine run_rel (r := fun l l' => l.established ⊆ l'.established ∧ (l.Named E keys → l'.Named E keys))
    (fun l => ⟨fun _ member => member, fun named => named⟩)
    (fun l m n first second => ⟨List.Subset.trans first.1 second.1, fun named => second.2 (first.2 named)⟩)
    ?_ h
  intro l a l' taken
  rcases step_cases taken with ⟨side, response, rfl, ok, rfl⟩ |
    ⟨side, n, s, signed, found, ok, rfl⟩ | ⟨side, p, rfl, quiet⟩
  · refine ⟨List.subset_append_left .., fun named c member => ?_⟩
    rcases List.mem_append.mp member with old | new
    · exact named c old
    · rw [List.mem_singleton.mp new]
      exact ⟨side, rfl, rfl⟩
  · exact ⟨fun _ member => member, fun named => named⟩
  · exact ⟨fun _ member => member, fun named => named⟩

/-- The ids of the peers have no separator in them, so the challenge can be read back. -/
theorem text_inj {link : Link} (named : link.Named E keys) {c c' : Challenge} (member : c ∈ link.established)
    (member' : c' ∈ link.established) (same : c.text = c'.text) : c = c' := by
  obtain ⟨side, initiator, responder⟩ := named c member
  obtain ⟨side', initiator', responder'⟩ := named c' member'
  have bar : "|".toList = ['|'] := rfl
  have plain (k : Keypair) : Free '|' (peerId E k) := free_hex (by decide) _
  obtain ⟨peers, nonce⟩ := last_field bar (free_decimal rfl _) (free_decimal rfl _) same
  rw [initiator, initiator', responder, responder'] at peers
  obtain ⟨first, second⟩ := first_field bar (plain _) (plain _) peers
  rw [← initiator, ← initiator'] at first
  rw [← responder, ← responder'] at second
  cases c
  cases c'
  simp only [Challenge.mk.injEq]
  exact ⟨first, second, UInt64.toNat_inj.mp (decimal_inj nonce)⟩

theorem challengeId_inj {link : Link} (named : link.Named E keys)
    (distinct : Set.InjOn E.digest {b | b ∈ link.established.map fun c => utf8 c.text})
    {c c' : Challenge} (member : c ∈ link.established) (member' : c' ∈ link.established)
    (same : challengeId E c = challengeId E c') : c = c' := by
  have texts := distinct (List.mem_map_of_mem member) (List.mem_map_of_mem member') (hex_inj same)
  exact text_inj named member member' (utf8_inj.mp texts)

/-- In a run without collisions, an unused challenge has an unused id. -/
theorem unusedId_of_run {link link' : Link} {a : LinkAction} {actions : List LinkAction}
    (named : link'.Named E keys)
    (distinct : Set.InjOn E.digest {b | b ∈ link'.established.map fun c => utf8 c.text})
    (h : run (step E keys) link (a :: actions) = some link') (unused : link.Unused E keys a) :
    link.UnusedId E keys a := by
  cases a with
  | establish side response =>
      intro ok again
      obtain ⟨next, first, last⟩ := run_cons h
      obtain ⟨c, member, same⟩ := List.mem_map.mp again
      have new : link.nextChallenge E keys side ∈ next.established := by
        rw [step_answered ok first]
        exact List.mem_append_right _ (List.mem_singleton.mpr rfl)
      have challenge := challengeId_inj named distinct ((run_established h).1 member)
        ((run_established last).1 new) same
      exact unused ok (challenge ▸ member)
  | send side n payload => trivial
  | receive side n signed => trivial
  | restart side => trivial

/-- In every state of a run in which no challenge is answered for a second session, neither peer
has accepted an envelope twice. -/
theorem accepted_once {actions : List LinkAction} {link : Link}
    (along : Along (step E keys) (Unused E keys) start actions)
    (h : run (step E keys) start actions = some link)
    (distinct : Set.InjOn E.digest {b | b ∈ link.established.map fun c => utf8 c.text}) (side : Side) :
    (link.party side).accepted.Nodup := by
  have named : link.Named E keys := (run_established h).2 fun c member => nomatch member
  have unused_ids := along.imp_of_run h fun t a bs rest unused => unusedId_of_run named distinct rest unused
  exact (run_invariant step_guarded start_guarded unused_ids h side).once

section Alice

def aliceBobKeys : Side → U8Array 32
  | .left => aliceKey
  | .right => bobKey

def aliceBobChallenge (nonce : UInt64) : Challenge := ⟨hex aliceKey.val, hex bobKey.val, nonce⟩

/-- Alice's first message in the session of the first challenge. -/
def greeting : Envelope :=
  ⟨hex (Sha256.digestBytes (utf8 (aliceBobChallenge 1).text)), 1, hex aliceKey.val, utf8 "hello"⟩

abbrev aliceBobExternals : CryptoExternals (U8Array 32) :=
  pinned [utf8 (aliceBobChallenge 1).text, utf8 (aliceBobChallenge 2).text, greeting.input]

def answer (nonce : UInt64) : ChallengeResponse := respond aliceBobExternals (aliceBobChallenge nonce) bobKey

def signedGreeting : SignedEnvelope :=
  ⟨greeting, (sign aliceBobExternals aliceKey (envelopeBytes aliceBobExternals greeting)).val⟩

theorem aliceBob_next {link : Link} {nonce : UInt64}
    (due : (link.party .left).generator.lastNonce + 1 = nonce) :
    link.nextChallenge aliceBobExternals aliceBobKeys .left = aliceBobChallenge nonce := by
  rw [← due]
  rfl

theorem aliceBob_answered {link : Link} {nonce : UInt64}
    (due : (link.party .left).generator.lastNonce + 1 = nonce)
    (known : utf8 (aliceBobChallenge nonce).text ∈
      [utf8 (aliceBobChallenge 1).text, utf8 (aliceBobChallenge 2).text, greeting.input])
    (fresh : (link.party .left).registry.last (hex bobKey.val) < nonce) :
    link.Answered aliceBobExternals aliceBobKeys .left (answer nonce) := by
  unfold Answered
  rw [aliceBob_next due]
  exact ⟨rfl, rfl, fresh, _, tryInto_val _, pinned_correct bobKey known⟩

theorem greeting_session :
    signedGreeting.envelope.sessionId = challengeId aliceBobExternals (aliceBobChallenge 1) := by
  have digest : aliceBobExternals.digest (utf8 (aliceBobChallenge 1).text) =
    Sha256.digestBytes (utf8 (aliceBobChallenge 1).text) := pinned_digest List.mem_cons_self
  unfold challengeId sessionId
  exact congrArg hex digest.symm

theorem greeting_correct : aliceBobExternals.ed25519.CorrectAt aliceKey
    (envelopeBytes aliceBobExternals greeting) := by
  have member : greeting.input ∈ [utf8 (aliceBobChallenge 1).text, utf8 (aliceBobChallenge 2).text,
    greeting.input] := List.mem_cons_of_mem _ (List.mem_cons_of_mem _ List.mem_cons_self)
  exact pinned_correct aliceKey member

theorem greeting_accepted :
    (session aliceBobExternals aliceBobKeys (aliceBobChallenge 1) .right).Accepts aliceBobExternals
      signedGreeting := by
  have zero_lt_one : (0 : UInt64) < 1 := by decide
  refine ⟨greeting_session, zero_lt_one,
    sign aliceBobExternals aliceKey (envelopeBytes aliceBobExternals greeting), ?_, greeting_correct⟩
  rw [signedGreeting, tryInto_val]

theorem aliceBob_digests : Sha256.digestBytes (utf8 (aliceBobChallenge 1).text) ≠
    Sha256.digestBytes (utf8 (aliceBobChallenge 2).text) := by
  decide +kernel

theorem aliceBob_distinct {established : List Challenge}
    (known : ∀ c ∈ established, c = aliceBobChallenge 1 ∨ c = aliceBobChallenge 2) :
    Set.InjOn aliceBobExternals.digest {b | b ∈ established.map fun c => utf8 c.text} := by
  have first : aliceBobExternals.digest (utf8 (aliceBobChallenge 1).text) =
      Sha256.digestBytes (utf8 (aliceBobChallenge 1).text) := pinned_digest List.mem_cons_self
  have second : aliceBobExternals.digest (utf8 (aliceBobChallenge 2).text) =
      Sha256.digestBytes (utf8 (aliceBobChallenge 2).text) :=
    pinned_digest (List.mem_cons_of_mem _ List.mem_cons_self)
  intro x member y member' same
  obtain ⟨c, inside, rfl⟩ := List.mem_map.mp member
  obtain ⟨c', inside', rfl⟩ := List.mem_map.mp member'
  rcases known c inside with rfl | rfl
  · rcases known c' inside' with rfl | rfl
    · rfl
    · rw [first, second] at same
      exact absurd same aliceBob_digests
  · rcases known c' inside' with rfl | rfl
    · rw [first, second] at same
      exact absurd same.symm aliceBob_digests
    · rfl

def connected (link : Link) (nonce : UInt64) : Link :=
  link.answered aliceBobExternals aliceBobKeys .left (answer nonce)

/-- Bob's session accepts the message. -/
def greeted (link : Link) (n : ℕ) : Link :=
  link.put .right ((link.party .right).take n
    { session aliceBobExternals aliceBobKeys (aliceBobChallenge 1) .right with lastRemoteSeq := 1 }
    signedGreeting)

theorem step_greeted {link : Link} {n : ℕ} (found : (link.party .right).sessions[n]? =
    some (session aliceBobExternals aliceBobKeys (aliceBobChallenge 1) .right)) :
    link.step aliceBobExternals aliceBobKeys (.receive .right n signedGreeting) = some (link.greeted n) :=
  step_accepts found greeting_accepted

theorem start_connected : start.step aliceBobExternals aliceBobKeys (.establish .left (answer 1)) =
    some (start.connected 1) := by
  refine answered_step (by decide) (aliceBob_answered rfl List.mem_cons_self ?_)
  have none : (start.party .left).registry.last (hex bobKey.val) = 0 := AuthRegistry.last_new _
  rw [none]
  decide

theorem connected_greeted : (start.connected 1).step aliceBobExternals aliceBobKeys
    (.receive .right 0 signedGreeting) = some ((start.connected 1).greeted 0) :=
  step_greeted rfl

theorem greeting_sent :
    ((session aliceBobExternals aliceBobKeys (aliceBobChallenge 1) .left).send aliceBobExternals aliceKey
      (utf8 "hello")).map Prod.snd = some signedGreeting := by
  have possible : ((session aliceBobExternals aliceBobKeys (aliceBobChallenge 1) .left).send
      aliceBobExternals aliceKey (utf8 "hello")).isSome := rfl
  obtain ⟨⟨s, ⟨envelope, signature⟩⟩, sent⟩ := Option.isSome_iff_exists.mp possible
  have sends := SecureSession.send_sends sent
  have same : envelope = greeting := by
    refine sends.envelope.trans ?_
    have id := greeting_session.symm
    unfold challengeId at id
    simp only [session, SecureSession.new, id]
    rfl
  have signed : (⟨envelope, signature⟩ : SignedEnvelope) = signedGreeting := by
    have own : signature = (sign aliceBobExternals aliceKey (envelopeBytes aliceBobExternals envelope)).val :=
      sends.signature
    rw [own, same, signedGreeting]
  rw [sent, signed, Option.map_some]

/-- After a restart of Alice the numbers start again, and Bob accepts her message once more. -/
theorem restart_repeats :
    ∃ link, run (step aliceBobExternals aliceBobKeys) start [.establish .left (answer 1),
        .receive .right 0 signedGreeting, .restart .left, .establish .left (answer 1),
        .receive .right 1 signedGreeting] = some link ∧
      Set.InjOn aliceBobExternals.digest {b | b ∈ link.established.map fun c => utf8 c.text} ∧
      ((session aliceBobExternals aliceBobKeys (aliceBobChallenge 1) .left).send aliceBobExternals aliceKey
        (utf8 "hello")).map Prod.snd = some signedGreeting ∧
      (link.party .right).accepted = [signedGreeting, signedGreeting] := by
  let again := ((start.connected 1).greeted 0).reboot .left
  have third : ((start.connected 1).greeted 0).step aliceBobExternals aliceBobKeys (.restart .left) =
      some again := rfl
  have fourth : again.step aliceBobExternals aliceBobKeys (.establish .left (answer 1)) =
      some (again.connected 1) := by
    refine answered_step (by decide) (aliceBob_answered rfl List.mem_cons_self ?_)
    have none : (again.party .left).registry.last (hex bobKey.val) = 0 := AuthRegistry.last_new _
    rw [none]
    decide
  have fifth : (again.connected 1).step aliceBobExternals aliceBobKeys (.receive .right 1 signedGreeting) =
      some ((again.connected 1).greeted 1) := step_greeted rfl
  refine ⟨(again.connected 1).greeted 1, ?_, ?_, greeting_sent, rfl⟩
  · rw [run_of_step start_connected, run_of_step connected_greeted, run_of_step third, run_of_step fourth,
      run_of_step fifth, run]
  · have established : ((again.connected 1).greeted 1).established =
      [aliceBobChallenge 1, aliceBobChallenge 1] := rfl
    rw [established]
    exact aliceBob_distinct (by decide)

/-- After a restart of Bob, a second session under the next number. -/
theorem accepted_once_restarted :
    (((((start.connected 1).greeted 0).reboot .right).connected 2).party .right).accepted.Nodup := by
  let again := ((start.connected 1).greeted 0).reboot .right
  have third : ((start.connected 1).greeted 0).step aliceBobExternals aliceBobKeys (.restart .right) =
      some again := rfl
  have fourth : again.step aliceBobExternals aliceBobKeys (.establish .left (answer 2)) =
      some (again.connected 2) := by
    refine answered_step (by decide) (aliceBob_answered rfl (List.mem_cons_of_mem _ List.mem_cons_self) ?_)
    have recorded : (again.party .left).registry =
      AuthRegistry.new.record ⟨aliceBobChallenge 1, answer 1, bobKey⟩ := rfl
    have bob : (aliceBobChallenge 1).toPeerId = hex bobKey.val := rfl
    have one_lt_two : (1 : UInt64) < 2 := by decide
    rw [recorded, AuthRegistry.last_record, if_pos bob]
    exact one_lt_two
  have unused : aliceBobChallenge 2 ∉ [aliceBobChallenge 1] := by decide
  have along : Along (step aliceBobExternals aliceBobKeys) (Unused aliceBobExternals aliceBobKeys) start
      [.establish .left (answer 1), .receive .right 0 signedGreeting, .restart .right,
        .establish .left (answer 2)] := by
    refine along_of_step start_connected (fun _ => List.not_mem_nil) ?_
    refine along_of_step connected_greeted trivial ?_
    refine along_of_step third trivial ?_
    exact along_of_step fourth (fun _ => unused) trivial
  refine accepted_once along ?_ ?_ .right
  · rw [run_of_step start_connected, run_of_step connected_greeted, run_of_step third, run_of_step fourth,
      run]
  · have established : (again.connected 2).established = [aliceBobChallenge 1, aliceBobChallenge 2] := rfl
    rw [established]
    exact aliceBob_distinct (by decide)

end Alice
end Link
end KaiOs.Network
