import KaiOs.Lib.Runs
import KaiOs.Network.Auth

/-! One generator and one registry over a run. The initiator issues challenges and checks
what an adversary submits as responses to them. -/
namespace KaiOs.Network
open Runs

structure Initiator where
  generator : ChallengeGenerator
  registry : AuthRegistry
  issued : List Challenge
  accepted : List VerifyCall

inductive AuthAction where
  | issue (fromPeer toPeer : String)
  /-- A response to one of the issued challenges. -/
  | submit (call : VerifyCall)

namespace Initiator

def start : Initiator := ⟨.new, .new, [], []⟩

section
variable {Keypair : Type} (E : CryptoExternals Keypair)

def step (i : Initiator) : AuthAction → Option Initiator
  | .issue fromPeer toPeer => (i.generator.next fromPeer toPeer).map fun (generator, c) =>
      { i with generator := generator, issued := i.issued ++ [c] }
  | .submit call =>
      if call.challenge ∈ i.issued then
        match i.registry.verify E call with
        | (registry, .ok _) => some { i with registry := registry, accepted := i.accepted ++ [call] }
        | (registry, .error _) => some { i with registry := registry }
      else none

/-- A response that passes under a larger number than its challenge has. -/
structure Raised (registry : AuthRegistry) (call : VerifyCall) : Prop where
  passes : registry.Passes E call
  nonce : call.challenge.nonce < call.response.nonce

/-- The step accepts no raised number. -/
def Unraised (i : Initiator) : AuthAction → Prop
  | .issue _ _ => True
  | .submit call => ¬ Raised E i.registry call

/-- No answer to this challenge or a later one has been accepted from its peer. -/
def Pending (i : Initiator) (c : Challenge) : Prop :=
  c ∈ i.issued ∧ ∀ a ∈ i.accepted, a.challenge.toPeerId = c.toPeerId → a.challenge.nonce < c.nonce

/-- The registry stores no more than the numbers of answered challenges. -/
structure Bounded (i : Initiator) : Prop where
  stored : ∀ peer, i.registry.last peer = 0 ∨
    ∃ a ∈ i.accepted, a.challenge.toPeerId = peer ∧ i.registry.last peer ≤ a.challenge.nonce
  issued : ∀ c ∈ i.issued, 0 < c.nonce ∧ c.nonce ≤ i.generator.lastNonce
  answered : ∀ a ∈ i.accepted, a.challenge ∈ i.issued

end

variable {Keypair : Type} {E : CryptoExternals Keypair}

theorem start_bounded : start.Bounded where
  stored peer := .inl (AuthRegistry.last_new peer)
  issued _ member := nomatch member
  answered _ member := nomatch member

theorem next_nonce {g g' : ChallengeGenerator} {fromPeer toPeer : String} {c : Challenge}
    (h : g.next fromPeer toPeer = some (g', c)) :
    c = ⟨fromPeer, toPeer, g'.lastNonce⟩ ∧ g'.lastNonce.toNat = g.lastNonce.toNat + 1 := by
  obtain ⟨room, rfl, rfl⟩ := ChallengeGenerator.next_eq_some.mp h
  refine ⟨rfl, ?_⟩
  rw [UInt64.toNat_add]
  exact Nat.mod_eq_of_lt room

theorem step_cases {i i' : Initiator} {a : AuthAction} (taken : i.step E a = some i') :
    (∃ fromPeer toPeer g c, a = .issue fromPeer toPeer ∧
      i.generator.next fromPeer toPeer = some (g, c) ∧
      i' = { i with generator := g, issued := i.issued ++ [c] }) ∨
    (∃ call, a = .submit call ∧ call.challenge ∈ i.issued ∧ i.registry.Passes E call ∧
      i' = { i with registry := i.registry.record call, accepted := i.accepted ++ [call] }) ∨
    i' = i := by
  cases a with
  | issue fromPeer toPeer =>
      obtain ⟨⟨g, c⟩, next, rfl⟩ := Option.map_eq_some_iff.mp taken
      exact .inl ⟨fromPeer, toPeer, g, c, rfl, next, rfl⟩
  | submit call =>
      simp only [step] at taken
      split_ifs at taken with known
      rcases AuthRegistry.verify_cases E i.registry call with ok | ⟨err, refused⟩
      · rw [AuthRegistry.verify_of_passes ok] at taken
        cases taken
        exact .inr (.inl ⟨call, rfl, known, ok, rfl⟩)
      · rw [refused] at taken
        cases taken
        exact .inr (.inr rfl)

theorem step_bounded (i : Initiator) (a : AuthAction) (i' : Initiator) (h : i.Bounded)
    (unraised : i.Unraised E a) (taken : i.step E a = some i') : i'.Bounded := by
  rcases step_cases taken with ⟨fromPeer, toPeer, g, c, rfl, next, rfl⟩ | ⟨call, rfl, known, ok, rfl⟩ | rfl
  · obtain ⟨rfl, above⟩ := next_nonce next
    refine ⟨h.stored, fun c' member => ?_, fun a member => List.mem_append_left _ (h.answered a member)⟩
    simp only [UInt64.lt_iff_toNat_lt, UInt64.le_iff_toNat_le]
    rcases List.mem_append.mp member with old | new
    · have range := h.issued c' old
      simp only [UInt64.lt_iff_toNat_lt, UInt64.le_iff_toNat_le] at range
      omega
    · rw [List.mem_singleton.mp new]
      exact ⟨above ▸ Nat.succ_pos _, Nat.le_refl _⟩
  · have low : call.response.nonce ≤ call.challenge.nonce :=
      UInt64.not_lt.mp fun raised => unraised ⟨ok, raised⟩
    refine ⟨fun peer => ?_, h.issued, fun a member => ?_⟩
    · simp only [AuthRegistry.last_record]
      split_ifs with same
      · exact .inr ⟨call, by simp, same, low⟩
      · rcases h.stored peer with none | ⟨a, member, here, le⟩
        · exact .inl none
        · exact .inr ⟨a, List.mem_append_left _ member, here, le⟩
    · rcases List.mem_append.mp member with old | new
      · exact h.answered a old
      · rw [List.mem_singleton.mp new]
        exact known
  · exact h

/-- In every state of a run that accepts no raised number, the honest answer to a pending
challenge is accepted. -/
theorem pending_answered {actions : List AuthAction} {i : Initiator}
    (along : Along (step E) (Unraised E) start actions) (h : run (step E) start actions = some i)
    {c : Challenge} (pending : i.Pending c) {k : Keypair}
    (correct : E.ed25519.CorrectAt k (challengePayload E c)) :
    (i.registry.verify E ⟨c, respond E c k, publicBytes E k⟩).2 = .ok () := by
  have bounded := run_invariant step_bounded start_bounded along h
  rw [AuthRegistry.verify_ok_iff]
  refine ⟨rfl, rfl, ?_, _, tryInto_val _, correct⟩
  rcases bounded.stored c.toPeerId with none | ⟨a, member, here, le⟩
  · rw [none]
    exact (bounded.issued c pending.1).1
  · exact UInt64.lt_of_le_of_lt le (pending.2 a member here)

theorem next_pending {i i' : Initiator} (h : i.Bounded) {fromPeer toPeer : String} {c : Challenge}
    {g : ChallengeGenerator} (next : i.generator.next fromPeer toPeer = some (g, c))
    (taken : i.step E (.issue fromPeer toPeer) = some i') : i'.Pending c := by
  obtain ⟨⟨g', c'⟩, next', rfl⟩ := Option.map_eq_some_iff.mp taken
  cases next.symm.trans next'
  obtain ⟨rfl, above⟩ := next_nonce next
  refine ⟨by simp, fun a member _ => ?_⟩
  have range := (h.issued _ (h.answered a member)).2
  simp only [UInt64.lt_iff_toNat_lt, UInt64.le_iff_toNat_le] at range ⊢
  omega

section Bob

/-- Two challenges for Bob, with an answer to the first one in between. -/
def bobActions (nonce : UInt64) : List AuthAction :=
  [.issue "alice" "bob", .submit (renumbered nonce), .issue "alice" "bob"]

def bobEnd (nonce : UInt64) : Initiator :=
  ⟨⟨2⟩, AuthRegistry.new.record (renumbered nonce), [bobChallenge 1, bobChallenge 2], [renumbered nonce]⟩

theorem run_bob {nonce : UInt64} (fresh : 0 < nonce) :
    run (step bobExternals) start (bobActions nonce) = some (bobEnd nonce) := by
  have passes : AuthRegistry.new.Passes bobExternals (renumbered nonce) :=
    renumbered_passes (by rw [AuthRegistry.last_new]; exact fresh)
  have known : (renumbered nonce).challenge ∈ [bobChallenge 1] := List.mem_cons_self
  have first : start.step bobExternals (.issue "alice" "bob") =
      some ⟨⟨1⟩, .new, [bobChallenge 1], []⟩ := rfl
  have second : step bobExternals ⟨⟨1⟩, .new, [bobChallenge 1], []⟩ (.submit (renumbered nonce)) =
      some ⟨⟨1⟩, AuthRegistry.new.record (renumbered nonce), [bobChallenge 1], [renumbered nonce]⟩ := by
    simp only [step, if_pos known, AuthRegistry.verify_of_passes passes, List.nil_append]
  simp only [bobActions, run, first, second, Option.bind_some]
  rfl

theorem bob_pending (nonce : UInt64) : (bobEnd nonce).Pending (bobChallenge 2) := by
  refine ⟨by simp [bobEnd], fun a member _ => ?_⟩
  have one_lt_two : (1 : UInt64) < 2 := by decide
  rw [List.mem_singleton.mp member]
  exact one_lt_two

/-- The largest number in an answer locks Bob out. -/
theorem raised_locks_out :
    run (step bobExternals) start (bobActions 18446744073709551615) =
      some (bobEnd 18446744073709551615) ∧
    (bobEnd 18446744073709551615).Pending (bobChallenge 2) ∧
    bobExternals.ed25519.CorrectAt bobKey (challengePayload bobExternals (bobChallenge 2)) ∧
    ((bobEnd 18446744073709551615).registry.verify bobExternals
      ⟨bobChallenge 2, respond bobExternals (bobChallenge 2) bobKey, publicBytes bobExternals bobKey⟩).2 =
      .error (.replay 2 18446744073709551615) := by
  refine ⟨run_bob (by decide), bob_pending _, pinned_correct bobKey (by simp), ?_⟩
  have stored : (bobEnd 18446744073709551615).registry.last "bob" = 18446744073709551615 := by
    have bob : (renumbered 18446744073709551615).challenge.toPeerId = "bob" := rfl
    rw [bobEnd, AuthRegistry.last_record, if_pos bob]
    rfl
  unfold AuthRegistry.verify
  rw [if_neg (by decide)]
  simp only [respond, bobChallenge, stored]
  rfl

theorem pending_answered_second :
    ((bobEnd 1).registry.verify bobExternals
      ⟨bobChallenge 2, respond bobExternals (bobChallenge 2) bobKey, publicBytes bobExternals bobKey⟩).2 =
      .ok () := by
  have along : Along (step bobExternals) (Unraised bobExternals) start (bobActions 1) := by
    refine ⟨trivial, fun issued _ => ⟨fun raised => ?_, fun _ _ => ⟨trivial, fun _ _ => trivial⟩⟩⟩
    exact UInt64.lt_irrefl _ raised.nonce
  exact pending_answered along (run_bob (by decide)) (bob_pending 1) (pinned_correct bobKey (by simp))

end Bob
end Initiator
end KaiOs.Network
