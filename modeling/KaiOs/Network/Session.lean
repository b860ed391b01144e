import KaiOs.Network.Peer
import Mathlib.Algebra.Group.Nat.Defs
import Mathlib.Data.List.Sort

/-! `network/src/session.rs`: the session behind a handshake, with rising sequence numbers
and signed envelopes. -/
namespace KaiOs.Network
open Utf8

inductive SessionError where
  | replay (seq last : UInt64)
  | wrongSession (expected got : String)
  | badSignature
  deriving DecidableEq

structure Envelope where
  sessionId : String
  seq : UInt64
  fromPeerId : String
  payload : Bytes
  deriving DecidableEq

structure SignedEnvelope where
  envelope : Envelope
  signature : Bytes
  deriving DecidableEq

structure SecureSession where
  sessionId : String
  localPeerId : String
  remotePeerId : String
  remotePublic : U8Array 32
  nextLocalSeq : UInt64
  lastRemoteSeq : UInt64
  deriving DecidableEq

/-- `u64::to_be_bytes` -/
def u64Be (n : UInt64) : Bytes :=
  [UInt8.ofNat (n.toNat / 2 ^ 56), UInt8.ofNat (n.toNat / 2 ^ 48), UInt8.ofNat (n.toNat / 2 ^ 40),
    UInt8.ofNat (n.toNat / 2 ^ 32), UInt8.ofNat (n.toNat / 2 ^ 24), UInt8.ofNat (n.toNat / 2 ^ 16),
    UInt8.ofNat (n.toNat / 2 ^ 8), UInt8.ofNat n.toNat]

/-- Numbers agree down to a place if they agree above it and in the byte at it. -/
theorem byte_agree {n m place above : ℕ} (wide : above = place * 256) (high : n / above = m / above)
    (byte : n / place % 2 ^ 8 = m / place % 2 ^ 8) : n / place = m / place := by
  rw [wide, ← Nat.div_div_eq_div_mul, ← Nat.div_div_eq_div_mul] at high
  omega

theorem u64Be_inj {n m : UInt64} (h : u64Be n = u64Be m) : n = m := by
  have top : n.toNat / 2 ^ 64 = m.toNat / 2 ^ 64 := by
    rw [Nat.div_eq_of_lt n.toNat_lt, Nat.div_eq_of_lt m.toNat_lt]
  simp only [u64Be, List.cons.injEq, ← UInt8.toNat_inj, UInt8.toNat_ofNat', and_true] at h
  obtain ⟨b7, b6, b5, b4, b3, b2, b1, b0⟩ := h
  have to7 := byte_agree rfl top b7
  have to6 := byte_agree rfl to7 b6
  have to5 := byte_agree rfl to6 b5
  have to4 := byte_agree rfl to5 b4
  have to3 := byte_agree rfl to4 b3
  have to2 := byte_agree rfl to3 b2
  have to1 := byte_agree rfl to2 b1
  have to0 : n.toNat / 1 = m.toNat / 1 := byte_agree rfl to1 (by simpa using b0)
  apply UInt64.toNat_inj.mp
  simpa using to0
/-- The bytes that are hashed. The separator `|` is the byte 124. -/
def Envelope.input (e : Envelope) : Bytes :=
  utf8 e.sessionId ++ 124 :: (u64Be e.seq ++ 124 :: (utf8 e.fromPeerId ++ 124 :: e.payload))

section
variable {Keypair : Type} (E : CryptoExternals Keypair)

def envelopeBytes (e : Envelope) : Bytes := E.digest e.input

namespace SecureSession

def new (sessionId localPeerId remotePeerId : String) (remotePublic : U8Array 32) : SecureSession :=
  ⟨sessionId, localPeerId, remotePeerId, remotePublic, 1, 0⟩

/-- `next_local_seq += 1` panics when the counter is at its end: `none`. -/
def send (s : SecureSession) (k : Keypair) (payload : Bytes) : Option (SecureSession × SignedEnvelope) :=
  let env : Envelope := ⟨s.sessionId, s.nextLocalSeq, s.localPeerId, payload⟩
  if s.nextLocalSeq.toNat + 1 < 2 ^ 64 then
    some ({ s with nextLocalSeq := s.nextLocalSeq + 1 }, ⟨env, (sign E k (envelopeBytes E env)).val⟩)
  else none

def receive (s : SecureSession) (signed : SignedEnvelope) : SecureSession × Except SessionError Bytes :=
  if signed.envelope.sessionId ≠ s.sessionId then
    (s, .error (.wrongSession s.sessionId signed.envelope.sessionId))
  else if signed.envelope.seq ≤ s.lastRemoteSeq then
    (s, .error (.replay signed.envelope.seq s.lastRemoteSeq))
  else match tryInto 64 signed.signature with
    | none => (s, .error .badSignature)
    | some sig =>
        if !verifySignature E s.remotePublic (envelopeBytes E signed.envelope) sig then
          (s, .error .badSignature)
        else ({ s with lastRemoteSeq := signed.envelope.seq }, .ok signed.envelope.payload)

/-- Calls of `send` one after the other. -/
def sendAll (s : SecureSession) (k : Keypair) : List Bytes → Option (SecureSession × List SignedEnvelope)
  | [] => some (s, [])
  | payload :: payloads =>
      (s.send E k payload).bind fun (s', signed) =>
        (s'.sendAll k payloads).map fun (s'', sent) => (s'', signed :: sent)

/-- Calls of `receive` one after the other: the accepted envelopes, each with what its call
returned. -/
def receiveAll (s : SecureSession) : List SignedEnvelope → SecureSession × List (SignedEnvelope × Bytes)
  | [] => (s, [])
  | signed :: rest => match s.receive E signed with
    | (s', .ok payload) => ((s'.receiveAll rest).1, (signed, payload) :: (s'.receiveAll rest).2)
    | (s', .error _) => s'.receiveAll rest

/-- The signature is one of the remote peer for exactly this envelope. -/
def Authentic (s : SecureSession) (signed : SignedEnvelope) : Prop :=
  ∃ sig, tryInto 64 signed.signature = some sig ∧
    verifySignature E s.remotePublic (envelopeBytes E signed.envelope) sig = true

/-- The conditions under which an envelope is taken. -/
structure Accepts (s : SecureSession) (signed : SignedEnvelope) : Prop where
  session : signed.envelope.sessionId = s.sessionId
  fresh : s.lastRemoteSeq < signed.envelope.seq
  authentic : s.Authentic E signed

end SecureSession
end

namespace SecureSession
variable {Keypair : Type} {E : CryptoExternals Keypair}

theorem receive_of_accepts {s : SecureSession} {signed : SignedEnvelope} (ok : s.Accepts E signed) :
    s.receive E signed =
      ({ s with lastRemoteSeq := signed.envelope.seq }, .ok signed.envelope.payload) := by
  obtain ⟨sig, array, valid⟩ := ok.authentic
  unfold receive
  rw [if_neg (not_not.mpr ok.session), if_neg (UInt64.not_le.mpr ok.fresh), array]
  simp only [valid, Bool.not_true, Bool.false_eq_true, ↓reduceIte]

theorem receive_cases (E : CryptoExternals Keypair) (s : SecureSession) (signed : SignedEnvelope) :
    s.Accepts E signed ∨ ∃ err, s.receive E signed = (s, .error err) := by
  unfold receive
  split_ifs with session seq
  · exact .inr ⟨_, rfl⟩
  · exact .inr ⟨_, rfl⟩
  · cases array : tryInto 64 signed.signature with
    | none => exact .inr ⟨_, rfl⟩
    | some sig =>
        cases valid : verifySignature E s.remotePublic (envelopeBytes E signed.envelope) sig with
        | false => exact .inr ⟨.badSignature, by simp only [valid, Bool.not_false, ↓reduceIte]⟩
        | true => exact .inl ⟨not_not.mp session, UInt64.not_le.mp seq, sig, array, valid⟩

theorem receive_ok_iff {s : SecureSession} {signed : SignedEnvelope} :
    (∃ payload, (s.receive E signed).2 = .ok payload) ↔ s.Accepts E signed := by
  constructor
  · rintro ⟨payload, done⟩
    rcases receive_cases E s signed with ok | ⟨err, refused⟩
    · exact ok
    · rw [refused] at done
      cases done
  · intro ok
    exact ⟨_, by rw [receive_of_accepts ok]⟩

/-- What a call of `send` does when it does not panic. -/
structure Sends (E : CryptoExternals Keypair) (s s' : SecureSession) (k : Keypair) (payload : Bytes)
    (signed : SignedEnvelope) : Prop where
  envelope : signed.envelope = ⟨s.sessionId, s.nextLocalSeq, s.localPeerId, payload⟩
  signature : signed.signature = (sign E k (envelopeBytes E signed.envelope)).val
  next : s'.nextLocalSeq.toNat = s.nextLocalSeq.toNat + 1
  same : s' = { s with nextLocalSeq := s'.nextLocalSeq }

theorem send_sends {s s' : SecureSession} {k : Keypair} {payload : Bytes} {signed : SignedEnvelope}
    (h : s.send E k payload = some (s', signed)) : Sends E s s' k payload signed := by
  unfold send at h
  split_ifs at h with room
  cases h
  refine ⟨rfl, rfl, ?_, rfl⟩
  rw [UInt64.toNat_add]
  exact Nat.mod_eq_of_lt room

theorem sendAll_sends {s s' : SecureSession} {k : Keypair} {payloads : List Bytes}
    {sent : List SignedEnvelope} (h : s.sendAll E k payloads = some (s', sent)) :
    sent.map (fun e => e.envelope.payload) = payloads ∧
    sent.Pairwise (fun e e' => e.envelope.seq < e'.envelope.seq) ∧
    ∀ e ∈ sent, s.nextLocalSeq ≤ e.envelope.seq ∧ e.envelope.sessionId = s.sessionId ∧
      e.envelope.fromPeerId = s.localPeerId ∧
      e.signature = (sign E k (envelopeBytes E e.envelope)).val := by
  induction payloads generalizing s sent with
  | nil =>
      cases h
      exact ⟨rfl, .nil, fun e member => nomatch member⟩
  | cons payload payloads ih =>
      obtain ⟨⟨s₁, signed⟩, one, rest⟩ := Option.bind_eq_some_iff.mp h
      obtain ⟨⟨s₂, sent'⟩, more, same⟩ := Option.map_eq_some_iff.mp rest
      cases same
      have first := send_sends one
      obtain ⟨texts, rising, each⟩ := ih more
      have seq : signed.envelope.seq = s.nextLocalSeq := by rw [first.envelope]
      have above : s.nextLocalSeq < s₁.nextLocalSeq := by
        rw [UInt64.lt_iff_toNat_lt, first.next]
        exact Nat.lt_succ_self _
      refine ⟨?_, List.pairwise_cons.mpr ⟨fun e member => ?_, rising⟩, ?_⟩
      · rw [List.map_cons, texts, first.envelope]
      · rw [seq]
        exact UInt64.lt_of_lt_of_le above (each e member).1
      · intro e member
        rcases List.mem_cons.mp member with rfl | later
        · exact ⟨UInt64.le_of_eq seq.symm, by rw [first.envelope], by rw [first.envelope], first.signature⟩
        · obtain ⟨le, session, sender, signature⟩ := each e later
          rw [first.same] at session sender
          exact ⟨UInt64.le_trans (UInt64.le_of_lt above) le, session, sender, signature⟩

/-- The number of the last accepted envelope, or what it was before. -/
def lastSeq (start : UInt64) (accepted : List (SignedEnvelope × Bytes)) : UInt64 :=
  (accepted.getLast?.map fun a => a.1.envelope.seq).getD start

/-- Over any calls the session changes only in its last number, and what is accepted rises
from there. -/
theorem receiveAll_accepted (s : SecureSession) (incoming : List SignedEnvelope) :
    (s.receiveAll E incoming).1 =
      { s with lastRemoteSeq := lastSeq s.lastRemoteSeq (s.receiveAll E incoming).2 } ∧
    (s.receiveAll E incoming).2.Pairwise (fun a b => a.1.envelope.seq < b.1.envelope.seq) ∧
    ∀ a ∈ (s.receiveAll E incoming).2, a.1 ∈ incoming ∧ s.lastRemoteSeq < a.1.envelope.seq ∧
      a.2 = a.1.envelope.payload := by
  induction incoming generalizing s with
  | nil => exact ⟨rfl, .nil, fun a member => nomatch member⟩
  | cons signed rest ih =>
      rcases receive_cases E s signed with ok | ⟨err, refused⟩
      · simp only [receiveAll, receive_of_accepts ok]
        obtain ⟨session, rising, each⟩ := ih { s with lastRemoteSeq := signed.envelope.seq }
        refine ⟨?_, List.pairwise_cons.mpr ⟨fun a member => (each a member).2.1, rising⟩, ?_⟩
        · rw [session]
          simp only [lastSeq, List.getLast?_cons]
          cases (receiveAll E { s with lastRemoteSeq := signed.envelope.seq } rest).2.getLast? with
          | none => rfl
          | some last => rfl
        · intro a member
          rcases List.mem_cons.mp member with rfl | later
          · exact ⟨List.mem_cons_self, ok.fresh, rfl⟩
          · obtain ⟨inside, above, payload⟩ := each a later
            exact ⟨List.mem_cons_of_mem _ inside, UInt64.lt_trans ok.fresh above, payload⟩
      · simp only [receiveAll, refused]
        obtain ⟨session, rising, each⟩ := ih s
        refine ⟨session, rising, fun a member => ?_⟩
        obtain ⟨inside, above, payload⟩ := each a member
        exact ⟨List.mem_cons_of_mem _ inside, above, payload⟩

/-- A list that rises and takes its members from another rising list is a part of it. -/
theorem sublist_of_rising {α : Type} (key : α → UInt64) {xs ys : List α}
    (rises : xs.Pairwise fun a b => key a < key b) (rises' : ys.Pairwise fun a b => key a < key b)
    (inside : ∀ x ∈ xs, x ∈ ys) : List.Sublist xs ys := by
  have distinct : xs.Nodup := by
    refine List.nodup_iff_pairwise_ne.mpr (rises.imp ?_)
    rintro a _ less rfl
    exact UInt64.lt_irrefl _ less
  have antisymm : Std.Antisymm fun a b : α => key a < key b :=
    ⟨fun a b less more => absurd (UInt64.lt_trans less more) (UInt64.lt_irrefl _)⟩
  exact List.sublist_of_subperm_of_pairwise (List.subperm_of_subset distinct inside) rises rises'

/-- Whatever arrives: accepted numbers rise, a refused envelope leaves no trace, and an
authentic envelope above the last accepted one is taken. From a channel that only delays,
drops or repeats what was sent, payloads arrive in the order of sending. -/
theorem receiveAll_ordered (E : CryptoExternals Keypair) (s : SecureSession)
    (incoming : List SignedEnvelope) :
    ((s.receiveAll E incoming).2.map fun a => a.1.envelope.seq).Pairwise (· < ·) ∧
    ((s.receiveAll E incoming).2.map fun a => a.1.envelope.seq).Nodup ∧
    (∀ signed err, ((s.receiveAll E incoming).1.receive E signed).2 = .error err →
      ((s.receiveAll E incoming).1.receive E signed).1 = (s.receiveAll E incoming).1) ∧
    (∀ signed, signed.envelope.sessionId = s.sessionId → s.Authentic E signed →
      lastSeq s.lastRemoteSeq (s.receiveAll E incoming).2 < signed.envelope.seq →
      ((s.receiveAll E incoming).1.receive E signed).2 = .ok signed.envelope.payload) ∧
    (∀ (r r' : SecureSession) (k : Keypair) (payloads : List Bytes) (sent : List SignedEnvelope),
      r.sendAll E k payloads = some (r', sent) → (∀ e ∈ incoming, e ∈ sent) →
      List.Sublist ((s.receiveAll E incoming).2.map Prod.snd) payloads) := by
  obtain ⟨session, rising, each⟩ := receiveAll_accepted (E := E) s incoming
  have numbers : ((s.receiveAll E incoming).2.map fun a => a.1.envelope.seq).Pairwise (· < ·) :=
    List.pairwise_map.mpr rising
  refine ⟨numbers, List.nodup_iff_pairwise_ne.mpr (numbers.imp UInt64.ne_of_lt), ?_, ?_, ?_⟩
  · intro signed err refused
    rcases receive_cases E (s.receiveAll E incoming).1 signed with ok | ⟨_, kept⟩
    · rw [receive_of_accepts ok] at refused
      cases refused
    · rw [kept]
  · intro signed same authentic above
    have ok : (s.receiveAll E incoming).1.Accepts E signed := by
      rw [session]
      exact ⟨same, above, authentic⟩
    rw [receive_of_accepts ok]
  · intro r r' k payloads sent sending channel
    obtain ⟨texts, order, _⟩ := sendAll_sends sending
    have payload : (s.receiveAll E incoming).2.map Prod.snd =
        ((s.receiveAll E incoming).2.map Prod.fst).map fun e => e.envelope.payload := by
      rw [List.map_map]
      exact List.map_congr_left fun a member => (each a member).2.2
    rw [payload, ← texts]
    refine (sublist_of_rising (fun e => e.envelope.seq) (List.pairwise_map.mpr rising) order ?_).map _
    intro e member
    obtain ⟨a, inside, rfl⟩ := List.mem_map.mp member
    exact channel _ (each a inside).1

end SecureSession
end KaiOs.Network
