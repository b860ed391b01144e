import KaiOs.Ai.Audit
import KaiOs.Lib.Traces
import KaiOs.State.Merkle

/-! `ai/src/proposal.rs`: what agents propose, and how far each proposal has come. -/
namespace KaiOs.Ai

inductive ProposalState where
  | proposed
  | specified
  | handedToVM
  deriving DecidableEq

structure Proposal (Value : Type) where
  id : String
  agent : String
  kind : String
  payload : Value
  state : ProposalState

inductive ProposalError where
  | unknownProposal (id : String)
  | invalidTransition (source target : ProposalState)
  deriving DecidableEq

structure ProposalRegistry (Value : Type) where
  proposals : BTreeMap String (Proposal Value)
  audit : AuditPipeline

/-- What an agent hands in. -/
structure Submission (Value : Type) where
  agent : String
  kind : String
  payload : Value

namespace Submission
variable {Value : Type} (E : AiExternals Value) (s : Submission Value)

def text : String := s!"{s.agent}|{s.kind}|{E.text s.payload}"

def id : String := E.shaHex (s.text E)

end Submission

namespace ProposalRegistry
variable {Value : Type} (E : AiExternals Value)

def new : ProposalRegistry Value := ⟨∅, .new⟩

/-- `submit`, with its three arguments in one. -/
def submit (r : ProposalRegistry Value) (s : Submission Value) : String × ProposalRegistry Value :=
  let id := s.id E
  if r.proposals.contains id then (id, r)
  else (id, ⟨r.proposals.insert id ⟨id, s.agent, s.kind, s.payload, .proposed⟩,
    (r.audit.record E.shaHex s.agent "proposal_submitted" id).2⟩)

/-- The body that the two transitions share. -/
def mark (required target : ProposalState) (event : String) (r : ProposalRegistry Value) (id : String) :
    Except ProposalError Unit × ProposalRegistry Value :=
  match r.proposals[id]? with
  | none => (.error (.unknownProposal id), r)
  | some p =>
      if p.state ≠ required then (.error (.invalidTransition p.state target), r)
      else (.ok (), ⟨r.proposals.insert id { p with state := target },
        (r.audit.record E.shaHex "proposal-registry" event id).2⟩)

def markSpecified (r : ProposalRegistry Value) (id : String) :
    Except ProposalError Unit × ProposalRegistry Value :=
  mark E .proposed .specified "proposal_specified" r id

def markHandedToVM (r : ProposalRegistry Value) (id : String) :
    Except ProposalError Unit × ProposalRegistry Value :=
  mark E .specified .handedToVM "proposal_handed_to_vm" r id

end ProposalRegistry

inductive ProposalCall (Value : Type) where
  | submit (s : Submission Value)
  | markSpecified (id : String)
  | markHandedToVM (id : String)

inductive ProposalReply where
  | submitted (id : String)
  | marked (result : Except ProposalError Unit)
  deriving DecidableEq

section
variable {Value : Type} (E : AiExternals Value)

def proposalStep (r : ProposalRegistry Value) :
    ProposalCall Value → Option (ProposalReply × ProposalRegistry Value)
  | .submit s => some (.submitted (r.submit E s).1, (r.submit E s).2)
  | .markSpecified id => some (.marked (r.markSpecified E id).1, (r.markSpecified E id).2)
  | .markHandedToVM id => some (.marked (r.markHandedToVM E id).1, (r.markHandedToVM E id).2)

/-- The ways in which a call can end: nothing is written, a proposal is entered under its
submission's id, or one is moved on; with the event that is recorded. -/
inductive Moved (r : ProposalRegistry Value) : ProposalCall Value → ProposalReply → ProposalRegistry Value → Prop
  | resubmitted (s : Submission Value) (p : Proposal Value) (known : r.proposals[s.id E]? = some p) :
      Moved r (.submit s) (.submitted (s.id E)) r
  | entered (s : Submission Value) (unknown : r.proposals[s.id E]? = none) :
      Moved r (.submit s) (.submitted (s.id E))
        ⟨r.proposals.insert (s.id E) ⟨s.id E, s.agent, s.kind, s.payload, .proposed⟩,
          (r.audit.record E.shaHex s.agent "proposal_submitted" (s.id E)).2⟩
  | refused (call : ProposalCall Value) (transition : ∀ s, call ≠ .submit s) (e : ProposalError) :
      Moved r call (.marked (.error e)) r
  | specified (id : String) (p : Proposal Value) (held : r.proposals[id]? = some p)
      (state : p.state = .proposed) : Moved r (.markSpecified id) (.marked (.ok ()))
        ⟨r.proposals.insert id { p with state := .specified },
          (r.audit.record E.shaHex "proposal-registry" "proposal_specified" id).2⟩
  | handed (id : String) (p : Proposal Value) (held : r.proposals[id]? = some p)
      (state : p.state = .specified) : Moved r (.markHandedToVM id) (.marked (.ok ()))
        ⟨r.proposals.insert id { p with state := .handedToVM },
          (r.audit.record E.shaHex "proposal-registry" "proposal_handed_to_vm" id).2⟩

variable {E}

theorem mark_spec (required target : ProposalState) (event : String) (r : ProposalRegistry Value) (id : String) :
    (∃ e, r.mark E required target event id = (.error e, r)) ∨
      ∃ p, r.proposals[id]? = some p ∧ p.state = required ∧
        r.mark E required target event id = (.ok (), ⟨r.proposals.insert id { p with state := target },
          (r.audit.record E.shaHex "proposal-registry" event id).2⟩) := by
  unfold ProposalRegistry.mark
  cases r.proposals[id]? with
  | none => exact .inl ⟨_, rfl⟩
  | some p =>
      by_cases due : p.state = required
      · exact .inr ⟨p, rfl, due, if_neg (not_not.mpr due)⟩
      · exact .inl ⟨_, if_pos due⟩

theorem proposalStep_moved {r next : ProposalRegistry Value} {call : ProposalCall Value} {reply : ProposalReply}
    (taken : proposalStep E r call = some (reply, next)) : Moved E r call reply next := by
  cases call with
  | submit s =>
      cases taken
      unfold ProposalRegistry.submit
      cases held : r.proposals[s.id E]? with
      | some p =>
          have known : r.proposals.contains (s.id E) = true := by
            rw [Std.ExtTreeMap.contains_eq_isSome_getElem?, held, Option.isSome_some]
          simp only [known, if_true]
          exact .resubmitted s p held
      | none =>
          have unknown : ¬ r.proposals.contains (s.id E) = true := by
            rw [Std.ExtTreeMap.contains_eq_isSome_getElem?, held, Option.isSome_none]
            exact Bool.false_ne_true
          simp only [if_neg unknown]
          exact .entered s held
  | markSpecified id =>
      cases taken
      obtain ⟨e, same⟩ | ⟨p, held, state, same⟩ :=
        mark_spec (E := E) .proposed .specified "proposal_specified" r id
      · rw [ProposalRegistry.markSpecified, same]
        exact .refused (.markSpecified id) (fun _ h => nomatch h) e
      · rw [ProposalRegistry.markSpecified, same]
        exact .specified id p held state
  | markHandedToVM id =>
      cases taken
      obtain ⟨e, same⟩ | ⟨p, held, state, same⟩ :=
        mark_spec (E := E) .specified .handedToVM "proposal_handed_to_vm" r id
      · rw [ProposalRegistry.markHandedToVM, same]
        exact .refused (.markHandedToVM id) (fun _ h => nomatch h) e
      · rw [ProposalRegistry.markHandedToVM, same]
        exact .handed id p held state

theorem proposalStep_isSome (r : ProposalRegistry Value) (call : ProposalCall Value) :
    (proposalStep E r call).isSome := by
  cases call <;> rfl

end
end KaiOs.Ai
