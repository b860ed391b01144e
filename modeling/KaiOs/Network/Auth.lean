import KaiOs.Network.Peer
import KaiOs.State.Merkle
import Mathlib.Algebra.Group.Nat.Defs

/-! `network/src/auth.rs`: challenge and response with a nonce per initiator. The signature
covers the challenge; the response carries its own copy of the nonce. -/
namespace KaiOs.Network
open Utf8

structure Challenge where
  fromPeerId : String
  toPeerId : String
  nonce : UInt64
  deriving DecidableEq

structure ChallengeResponse where
  fromPeerId : String
  toPeerId : String
  nonce : UInt64
  signature : Bytes
  deriving DecidableEq

inductive AuthError where
  | replay (nonce last : UInt64)
  | wrongPeer (expected got : String)
  | badSignature
  deriving DecidableEq

/-- Three fields with a bar between them, as `challenge_payload` and `session_id` hash them. -/
def barText (a b : String) (nonce : UInt64) : String := a ++ "|" ++ b ++ "|" ++ toString nonce.toNat

def Challenge.text (c : Challenge) : String := barText c.fromPeerId c.toPeerId c.nonce

structure ChallengeGenerator where
  lastNonce : UInt64
  deriving DecidableEq

namespace ChallengeGenerator

def new : ChallengeGenerator := ⟨0⟩

/-- `last_nonce += 1` panics when the counter is at its end: `none`. -/
def next (g : ChallengeGenerator) (fromPeer toPeer : String) : Option (ChallengeGenerator × Challenge) :=
  if g.lastNonce.toNat + 1 < 2 ^ 64 then
    some (⟨g.lastNonce + 1⟩, ⟨fromPeer, toPeer, g.lastNonce + 1⟩)
  else none

end ChallengeGenerator

/-- The stored nonces. Only `get` and `insert` of the hash map are used. -/
structure AuthRegistry where
  lastNonce : BTreeMap String UInt64

/-- The arguments of one call of `verify`. -/
structure VerifyCall where
  challenge : Challenge
  response : ChallengeResponse
  responderPublic : U8Array 32
  deriving DecidableEq

section
variable {Keypair : Type} (E : CryptoExternals Keypair)

def challengePayload (c : Challenge) : Bytes := E.digest (utf8 c.text)

def respond (c : Challenge) (responder : Keypair) : ChallengeResponse :=
  ⟨c.toPeerId, c.fromPeerId, c.nonce, (sign E responder (challengePayload E c)).val⟩

def sessionId (a b : String) (nonce : UInt64) : String := hex (E.digest (utf8 (barText a b nonce)))

namespace AuthRegistry

def new : AuthRegistry := ⟨∅⟩

/-- The stored nonce of a peer, 0 for an unknown one. -/
def last (reg : AuthRegistry) (peer : String) : UInt64 := reg.lastNonce[peer]?.getD 0

def verify (reg : AuthRegistry) (call : VerifyCall) : AuthRegistry × Except AuthError Unit :=
  if call.response.toPeerId ≠ call.challenge.fromPeerId ∨
      call.response.fromPeerId ≠ call.challenge.toPeerId then
    (reg, .error (.wrongPeer call.challenge.toPeerId call.response.fromPeerId))
  else if call.response.nonce ≤ reg.last call.response.fromPeerId then
    (reg, .error (.replay call.response.nonce (reg.last call.response.fromPeerId)))
  else match tryInto 64 call.response.signature with
    | none => (reg, .error .badSignature)
    | some sig =>
        if !verifySignature E call.responderPublic (challengePayload E call.challenge) sig then
          (reg, .error .badSignature)
        else (⟨reg.lastNonce.insert call.response.fromPeerId call.response.nonce⟩, .ok ())

/-- Calls of `verify` one after the other, and those that were accepted. -/
def verifyAll (reg : AuthRegistry) : List VerifyCall → AuthRegistry × List VerifyCall
  | [] => (reg, [])
  | call :: calls => match reg.verify E call with
    | (reg', .ok _) => ((reg'.verifyAll calls).1, call :: (reg'.verifyAll calls).2)
    | (reg', .error _) => reg'.verifyAll calls

/-- The conditions under which a response is taken. -/
structure Passes (reg : AuthRegistry) (call : VerifyCall) : Prop where
  initiator : call.response.toPeerId = call.challenge.fromPeerId
  responder : call.response.fromPeerId = call.challenge.toPeerId
  fresh : reg.last call.challenge.toPeerId < call.response.nonce
  signed : ∃ sig, tryInto 64 call.response.signature = some sig ∧
    verifySignature E call.responderPublic (challengePayload E call.challenge) sig = true

/-- The registry behind an accepted call. -/
def record (reg : AuthRegistry) (call : VerifyCall) : AuthRegistry :=
  ⟨reg.lastNonce.insert call.challenge.toPeerId call.response.nonce⟩

/-- What a presented response shows by itself: the right peers, and a signature over the challenge. -/
structure Genuine (call : VerifyCall) : Prop where
  initiator : call.response.toPeerId = call.challenge.fromPeerId
  responder : call.response.fromPeerId = call.challenge.toPeerId
  signed : ∃ sig, tryInto 64 call.response.signature = some sig ∧
    verifySignature E call.responderPublic (challengePayload E call.challenge) sig = true

/-- A nonce that does not go beyond what is stored for the peer at first, or what a genuine response
presented in its name carries. -/
def Outdated (reg : AuthRegistry) (before : List VerifyCall) (peer : String) (nonce : UInt64) : Prop :=
  nonce ≤ reg.last peer ∨
    ∃ call ∈ before, Genuine E call ∧ call.challenge.toPeerId = peer ∧ nonce ≤ call.response.nonce

end AuthRegistry
end

theorem ChallengeGenerator.next_eq_some {g g' : ChallengeGenerator} {fromPeer toPeer : String}
    {c : Challenge} : g.next fromPeer toPeer = some (g', c) ↔
      g.lastNonce.toNat + 1 < 2 ^ 64 ∧ ⟨g.lastNonce + 1⟩ = g' ∧ ⟨fromPeer, toPeer, g.lastNonce + 1⟩ = c := by
  unfold next
  split_ifs with room
  · simp only [Option.some.injEq, Prod.mk.injEq, room, true_and]
  · simp only [room, false_and]

namespace AuthRegistry
variable {Keypair : Type} {E : CryptoExternals Keypair}

theorem last_new (peer : String) : new.last peer = 0 := by
  simp [new, last]

theorem last_record (reg : AuthRegistry) (call : VerifyCall) (peer : String) :
    (reg.record call).last peer =
      if call.challenge.toPeerId = peer then call.response.nonce else reg.last peer := by
  simp only [last, record, lookup_insert]
  split_ifs
  · rfl
  · rfl

theorem passes_iff {reg : AuthRegistry} {call : VerifyCall} : reg.Passes E call ↔
    Genuine E call ∧ reg.last call.challenge.toPeerId < call.response.nonce :=
  ⟨fun ⟨initiator, responder, fresh, signed⟩ => ⟨⟨initiator, responder, signed⟩, fresh⟩,
    fun ⟨⟨initiator, responder, signed⟩, fresh⟩ => ⟨initiator, responder, fresh, signed⟩⟩

theorem verify_of_passes {reg : AuthRegistry} {call : VerifyCall} (ok : reg.Passes E call) :
    reg.verify E call = (reg.record call, .ok ()) := by
  obtain ⟨sig, array, valid⟩ := ok.signed
  have peers : ¬ (call.response.toPeerId ≠ call.challenge.fromPeerId ∨
      call.response.fromPeerId ≠ call.challenge.toPeerId) := by
    rintro (other | other)
    · exact other ok.initiator
    · exact other ok.responder
  have fresh : ¬ call.response.nonce ≤ reg.last call.response.fromPeerId := by
    rw [ok.responder]
    exact UInt64.not_le.mpr ok.fresh
  unfold verify
  rw [if_neg peers, if_neg fresh, array]
  simp only [valid, Bool.not_true, Bool.false_eq_true, ↓reduceIte, ok.responder]
  rfl

theorem verify_cases (E : CryptoExternals Keypair) (reg : AuthRegistry) (call : VerifyCall) :
    reg.Passes E call ∨ ∃ err, reg.verify E call = (reg, .error err) := by
  unfold verify
  split_ifs with peers nonce
  · exact .inr ⟨_, rfl⟩
  · exact .inr ⟨_, rfl⟩
  · rw [not_or, not_not, not_not] at peers
    cases array : tryInto 64 call.response.signature with
    | none => exact .inr ⟨_, rfl⟩
    | some sig =>
        cases valid : verifySignature E call.responderPublic (challengePayload E call.challenge) sig with
        | false => exact .inr ⟨.badSignature, by simp only [valid, Bool.not_false, ↓reduceIte]⟩
        | true =>
            rw [peers.2] at nonce
            exact .inl ⟨peers.1, peers.2, UInt64.not_le.mp nonce, sig, array, valid⟩

theorem verify_ok_iff {reg : AuthRegistry} {call : VerifyCall} :
    (reg.verify E call).2 = .ok () ↔ reg.Passes E call := by
  constructor
  · intro done
    rcases verify_cases E reg call with ok | ⟨err, refused⟩
    · exact ok
    · rw [refused] at done
      cases done
  · intro ok
    rw [verify_of_passes ok]

theorem last_le_record {reg : AuthRegistry} {call : VerifyCall} (ok : reg.Passes E call) (peer : String) :
    reg.last peer ≤ (reg.record call).last peer := by
  rw [last_record]
  split_ifs with same
  · rw [← same]
    exact UInt64.le_of_lt ok.fresh
  · exact UInt64.le_refl _

theorem verifyAll_above (reg : AuthRegistry) (calls : List VerifyCall) :
    ∀ a ∈ (reg.verifyAll E calls).2, reg.last a.challenge.toPeerId < a.response.nonce := by
  induction calls generalizing reg with
  | nil => exact fun a member => nomatch member
  | cons call calls ih =>
      rcases verify_cases E reg call with ok | ⟨err, refused⟩
      · simp only [verifyAll, verify_of_passes ok]
        intro a member
        rcases List.mem_cons.mp member with rfl | later
        · exact ok.fresh
        · exact UInt64.lt_of_le_of_lt (last_le_record ok _) (ih _ a later)
      · simp only [verifyAll, refused]
        exact ih reg

/-- Accepted responses with the nonces of their challenges belong to distinct challenges. -/
theorem verifyAll_nodup (reg : AuthRegistry) (calls : List VerifyCall)
    (own : ∀ a ∈ (reg.verifyAll E calls).2, a.response.nonce = a.challenge.nonce) :
    ((reg.verifyAll E calls).2.map VerifyCall.challenge).Nodup := by
  induction calls generalizing reg with
  | nil => exact .nil
  | cons call calls ih =>
      rcases verify_cases E reg call with ok | ⟨err, refused⟩
      · simp only [verifyAll, verify_of_passes ok] at own ⊢
        rw [List.map_cons, List.nodup_cons]
        refine ⟨?_, ih _ fun a member => own a (.tail _ member)⟩
        intro again
        obtain ⟨a, member, same⟩ := List.mem_map.mp again
        have above := verifyAll_above (reg.record call) calls a member
        rw [last_record, same, if_pos rfl, own a (.tail _ member), same, own call (.head _)] at above
        exact UInt64.lt_irrefl _ above
      · simp only [verifyAll, refused] at own ⊢
        exact ih reg own

theorem mem_verifyAll_iff {reg : AuthRegistry} {calls : List VerifyCall} {a : VerifyCall} :
    a ∈ (reg.verifyAll E calls).2 ↔
      ∃ before after, calls = before ++ a :: after ∧ (reg.verifyAll E before).1.Passes E a := by
  induction calls generalizing reg with
  | nil => simp [verifyAll]
  | cons call calls ih =>
      -- a call in front changes the registry that all others meet in one way or not at all
      have shift (next : AuthRegistry)
          (front : ∀ rest, (reg.verifyAll E (call :: rest)).1 = (next.verifyAll E rest).1) :
          (∃ before after, call :: calls = before ++ a :: after ∧ (reg.verifyAll E before).1.Passes E a) ↔
            (call = a ∧ reg.Passes E a) ∨
            ∃ before after, calls = before ++ a :: after ∧ (next.verifyAll E before).1.Passes E a := by
        constructor
        · rintro ⟨before, after, split, passes⟩
          cases before with
          | nil =>
              cases split
              exact .inl ⟨rfl, passes⟩
          | cons first before =>
              cases split
              exact .inr ⟨before, after, rfl, front before ▸ passes⟩
        · rintro (⟨rfl, passes⟩ | ⟨before, after, rfl, passes⟩)
          · exact ⟨[], calls, rfl, passes⟩
          · exact ⟨call :: before, after, rfl, (front before).symm ▸ passes⟩
      rcases verify_cases E reg call with ok | ⟨err, refused⟩
      · rw [shift (reg.record call) fun rest => by simp only [verifyAll, verify_of_passes ok]]
        simp only [verifyAll, verify_of_passes ok, List.mem_cons, ih]
        refine or_congr_left ⟨fun same => ?_, fun first => first.1.symm⟩
        rw [same]
        exact ⟨rfl, ok⟩
      · rw [shift reg fun rest => by simp only [verifyAll, refused]]
        simp only [verifyAll, refused, ih]
        refine (or_iff_right ?_).symm
        rintro ⟨rfl, passes⟩
        rw [verify_of_passes passes] at refused
        exact nomatch (Prod.mk.inj refused).2

theorem outdated_cons {reg : AuthRegistry} {call : VerifyCall} {calls : List VerifyCall} {peer : String}
    {nonce : UInt64} : Outdated E reg (call :: calls) peer nonce ↔
      (Genuine E call ∧ call.challenge.toPeerId = peer ∧ nonce ≤ call.response.nonce) ∨
        Outdated E reg calls peer nonce := by
  simp only [Outdated, List.exists_mem_cons_iff]
  exact or_left_comm

/-- The stored nonce is the largest one that was presented in a genuine response, accepted or not. -/
theorem le_last_verifyAll_iff {reg : AuthRegistry} {calls : List VerifyCall} {peer : String} {nonce : UInt64} :
    nonce ≤ (reg.verifyAll E calls).1.last peer ↔ Outdated E reg calls peer nonce := by
  induction calls generalizing reg with
  | nil => simp [verifyAll, Outdated]
  | cons call calls ih =>
      rw [outdated_cons]
      rcases verify_cases E reg call with ok | ⟨err, refused⟩
      · have next : (reg.verifyAll E (call :: calls)).1 = ((reg.record call).verifyAll E calls).1 := by
          simp only [verifyAll, verify_of_passes ok]
        obtain ⟨genuine, fresh⟩ := passes_iff.mp ok
        rw [next, ih, Outdated, Outdated, ← or_assoc, last_record]
        refine or_congr_left ?_
        split_ifs with same
        · rw [← same]
          exact ⟨fun within => .inl ⟨genuine, rfl, within⟩,
            fun within => within.elim (·.2.2) fun old => UInt64.le_trans old (UInt64.le_of_lt fresh)⟩
        · exact (or_iff_right fun own => same own.2.1).symm
      · have next : (reg.verifyAll E (call :: calls)).1 = (reg.verifyAll E calls).1 := by
          simp only [verifyAll, refused]
        rw [next, ih, or_iff_right_of_imp]
        -- a genuine response that is refused carries no more than the stored nonce
        rintro ⟨genuine, rfl, within⟩
        refine .inl (UInt64.le_trans within (UInt64.not_lt.mp fun fresh => ?_))
        rw [verify_of_passes (passes_iff.mpr ⟨genuine, fresh⟩)] at refused
        exact nomatch (Prod.mk.inj refused).2

/-- The accepted calls carry their challenges' nonces exactly if every genuine response with another
one comes too late. -/
theorem verifyAll_own_iff {reg : AuthRegistry} {calls : List VerifyCall} :
    (∀ a ∈ (reg.verifyAll E calls).2, a.response.nonce = a.challenge.nonce) ↔
      ∀ before call after, calls = before ++ call :: after → Genuine E call →
        call.response.nonce ≠ call.challenge.nonce →
          Outdated E reg before call.challenge.toPeerId call.response.nonce := by
  constructor
  · intro own before call after split genuine other
    rw [← le_last_verifyAll_iff]
    refine UInt64.not_lt.mp fun fresh => other (own call ?_)
    exact mem_verifyAll_iff.mpr ⟨before, after, split, passes_iff.mpr ⟨genuine, fresh⟩⟩
  · intro late a member
    obtain ⟨before, after, split, passes⟩ := mem_verifyAll_iff.mp member
    obtain ⟨genuine, fresh⟩ := passes_iff.mp passes
    by_contra other
    have known := le_last_verifyAll_iff.mpr (late before a after split genuine other)
    exact UInt64.not_le.mpr fresh known

/-- In particular where nobody presents a genuine response with another nonce. -/
theorem verifyAll_once_of_own {reg : AuthRegistry} {calls : List VerifyCall}
    (own : ∀ call ∈ calls, Genuine E call → call.response.nonce = call.challenge.nonce) :
    ((reg.verifyAll E calls).2.map VerifyCall.challenge).Nodup ∧
      ∀ a ∈ (reg.verifyAll E calls).2, a.response.nonce = a.challenge.nonce := by
  have accepted : ∀ a ∈ (reg.verifyAll E calls).2, a.response.nonce = a.challenge.nonce := by
    refine verifyAll_own_iff.mpr fun before call after split genuine other => ?_
    exact absurd (own call (split ▸ List.mem_append_right before List.mem_cons_self) genuine) other
  exact ⟨verifyAll_nodup reg calls accepted, accepted⟩

/-- Over any calls: every challenge is accepted once at most, under its own nonce, exactly if every
genuine response with another nonce than its challenge's carries an outdated one. -/
theorem verifyAll_once_iff (E : CryptoExternals Keypair) (reg : AuthRegistry) (calls : List VerifyCall) :
    ((reg.verifyAll E calls).2.map VerifyCall.challenge).Nodup ∧
      (∀ a ∈ (reg.verifyAll E calls).2, a.response.nonce = a.challenge.nonce) ↔
    ∀ before call after, calls = before ++ call :: after → Genuine E call →
      call.response.nonce ≠ call.challenge.nonce →
        Outdated E reg before call.challenge.toPeerId call.response.nonce := by
  rw [← verifyAll_own_iff]
  exact and_iff_right_of_imp (verifyAll_nodup reg calls)

end AuthRegistry

section Bob

def bobChallenge (nonce : UInt64) : Challenge := ⟨"alice", "bob", nonce⟩

abbrev bobExternals : CryptoExternals (U8Array 32) :=
  pinned [utf8 (bobChallenge 1).text, utf8 (bobChallenge 2).text]

/-- Bob's answer to the first challenge with another number in it. -/
def renumbered (nonce : UInt64) : VerifyCall :=
  ⟨bobChallenge 1, { respond bobExternals (bobChallenge 1) bobKey with nonce := nonce }, bobKey⟩

theorem renumbered_passes {reg : AuthRegistry} {nonce : UInt64} (fresh : reg.last "bob" < nonce) :
    reg.Passes bobExternals (renumbered nonce) where
  initiator := rfl
  responder := rfl
  fresh := fresh
  signed := ⟨sign bobExternals bobKey (challengePayload bobExternals (bobChallenge 1)), tryInto_val _,
    pinned_correct bobKey List.mem_cons_self⟩

/-- One answer of Bob is accepted twice, under the numbers 100 and 101. -/
theorem verifyAll_takes_twice :
    (AuthRegistry.new.verifyAll bobExternals [renumbered 100, renumbered 101]).2 =
      [renumbered 100, renumbered 101] ∧
    ¬ ([renumbered 100, renumbered 101].map VerifyCall.challenge).Nodup ∧
    (renumbered 100).response.nonce ≠ (renumbered 100).challenge.nonce := by
  have first : AuthRegistry.new.Passes bobExternals (renumbered 100) :=
    renumbered_passes (by decide +kernel)
  have second : (AuthRegistry.new.record (renumbered 100)).Passes bobExternals (renumbered 101) := by
    apply renumbered_passes
    have bob : (renumbered 100).challenge.toPeerId = "bob" := rfl
    rw [AuthRegistry.last_record, if_pos bob]
    decide
  refine ⟨?_, ?_, by decide⟩
  · simp only [AuthRegistry.verifyAll, AuthRegistry.verify_of_passes first,
      AuthRegistry.verify_of_passes second]
  · simp [renumbered]

end Bob
end KaiOs.Network
