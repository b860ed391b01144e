import KaiOs.Ai.Proposal

/-! The audit trail of the proposals tells how far each of them has come. -/
namespace KaiOs.Ai
open Traces

/-- The kinds of the events about one id, in their order. -/
def trail (a : AuditPipeline) (id : String) : List String :=
  (a.events.filter fun e => e.payload = id).map (·.kind)

/-- The events that lead to a state. -/
def lifecycle : Option ProposalState → List String
  | none => []
  | some .proposed => ["proposal_submitted"]
  | some .specified => ["proposal_submitted", "proposal_specified"]
  | some .handedToVM => ["proposal_submitted", "proposal_specified", "proposal_handed_to_vm"]

def stage : ProposalState → ℕ
  | .proposed => 0
  | .specified => 1
  | .handedToVM => 2

section
variable {Value : Type}

def stateAt (r : ProposalRegistry Value) (id : String) : Option ProposalState :=
  r.proposals[id]?.map (·.state)

variable (E : AiExternals Value)

/-- The trail and the registry tell the same. -/
structure Recorded (r : ProposalRegistry Value) : Prop where
  trails : ∀ id, trail r.audit id = lifecycle (stateAt r id)
  verifies : r.audit.verify E.shaHex = true

end

theorem trail_record (shaHex : String → String) (a : AuditPipeline) (actor kind payload id : String) :
    trail (a.record shaHex actor kind payload).2 id =
      trail a id ++ if payload = id then [kind] else [] := by
  obtain ⟨event, events, -, -, ofKind, about⟩ := a.record_events shaHex actor kind payload
  rw [trail, events, List.filter_append, List.map_append, List.filter_cons, List.filter_nil, about, trail]
  by_cases same : payload = id
  · rw [if_pos (decide_eq_true same), if_pos same, List.map_singleton, ofKind]
  · rw [if_neg (by simp only [same, decide_false, Bool.false_eq_true, not_false_eq_true]), if_neg same,
      List.map_nil]

/-- A lifecycle names each kind once, and how far it goes is the state. -/
theorem lifecycle_count_le (state : Option ProposalState) (kind : String) : (lifecycle state).count kind ≤ 1 := by
  have nodup : (lifecycle state).Nodup := by
    rcases state with _ | (_ | _ | _) <;> decide
  exact List.nodup_iff_count_le_one.mp nodup kind

theorem lifecycle_submitted (state : Option ProposalState) :
    state.isSome ↔ (lifecycle state).count "proposal_submitted" = 1 := by
  rcases state with _ | (_ | _ | _) <;> decide

theorem lifecycle_specified (state : Option ProposalState) :
    (∃ s, state = some s ∧ s ≠ .proposed) ↔
      ["proposal_submitted", "proposal_specified"].Sublist (lifecycle state) := by
  rcases state with _ | (_ | _ | _)
  · exact iff_of_false (fun ⟨_, h, _⟩ => nomatch h) (by decide)
  · exact iff_of_false (fun ⟨_, h, further⟩ => further (Option.some.inj h).symm) (by decide)
  · exact iff_of_true ⟨_, rfl, nofun⟩ (by decide)
  · exact iff_of_true ⟨_, rfl, nofun⟩ (by decide)

theorem lifecycle_handed (state : Option ProposalState) :
    state = some .handedToVM ↔
      ["proposal_submitted", "proposal_specified", "proposal_handed_to_vm"].Sublist (lifecycle state) := by
  rcases state with _ | (_ | _ | _) <;> decide

section
variable {Value : Type} {E : AiExternals Value} {r next : ProposalRegistry Value}

theorem recorded_new : Recorded E .new := by
  refine ⟨fun id => ?_, rfl⟩
  rw [stateAt, ProposalRegistry.new, Std.ExtTreeMap.getElem?_empty]
  rfl

theorem recorded_insert (h : Recorded E r) (id actor kind : String) (p : Proposal Value)
    (due : lifecycle (some p.state) = lifecycle (stateAt r id) ++ [kind]) :
    Recorded E ⟨r.proposals.insert id p, (r.audit.record E.shaHex actor kind id).2⟩ := by
  refine ⟨fun key => ?_, AuditPipeline.verify_record E.shaHex h.verifies actor kind id⟩
  rw [trail_record, h.trails, stateAt, stateAt, lookup_insert]
  split_ifs with same
  · subst same
    rw [Option.map_some, due, stateAt]
  · rw [List.append_nil]

theorem recorded_step {call : ProposalCall Value} {reply : ProposalReply} (h : Recorded E r)
    (moved : Moved E r call reply next) : Recorded E next := by
  cases moved with
  | resubmitted | refused => exact h
  | entered s unknown => exact recorded_insert h _ _ _ _ (by rw [stateAt, unknown]; rfl)
  | specified id p held state =>
      exact recorded_insert h _ _ _ _ (by rw [stateAt, held, Option.map_some, state]; rfl)
  | handed id p held state =>
      exact recorded_insert h _ _ _ _ (by rw [stateAt, held, Option.map_some, state]; rfl)

theorem stage_step {call : ProposalCall Value} {reply : ProposalReply} (moved : Moved E r call reply next)
    {id : String} {p : Proposal Value} (held : r.proposals[id]? = some p) :
    ∃ q, next.proposals[id]? = some q ∧ stage p.state ≤ stage q.state := by
  have written (k : String) (old new : Proposal Value) (known : r.proposals[k]? = some old)
      (later : stage old.state ≤ stage new.state) :
      ∃ q, (r.proposals.insert k new)[id]? = some q ∧ stage p.state ≤ stage q.state := by
    rw [lookup_insert]
    split_ifs with same
    · subst same
      cases held.symm.trans known
      exact ⟨new, rfl, later⟩
    · exact ⟨p, held, le_refl _⟩
  cases moved with
  | resubmitted | refused => exact ⟨p, held, le_refl _⟩
  | entered s unknown =>
      refine ⟨p, ?_, le_refl _⟩
      rw [lookup_insert, if_neg, held]
      rintro rfl
      cases held.symm.trans unknown
  | specified k old known state => exact written k old _ known (by rw [state]; exact Nat.le_succ _)
  | handed k old known state => exact written k old _ known (by rw [state]; exact Nat.le_succ _)

theorem recorded_run {calls : List (ProposalCall Value)} {history : List (ProposalCall Value × ProposalReply)}
    (ran : run (proposalStep E) .new calls = some (history, r)) : Recorded E r :=
  run_keeps_state (fun _ _ _ _ h taken => recorded_step h (proposalStep_moved taken)) recorded_new ran

theorem stage_run {calls : List (ProposalCall Value)} {history : List (ProposalCall Value × ProposalReply)}
    (ran : run (proposalStep E) r calls = some (history, next)) {id : String} {p : Proposal Value}
    (held : r.proposals[id]? = some p) :
    ∃ q, next.proposals[id]? = some q ∧ stage p.state ≤ stage q.state := by
  have keeps (g : ProposalRegistry Value) (call : ProposalCall Value) (reply : ProposalReply)
      (next : ProposalRegistry Value) (h : ∃ q, g.proposals[id]? = some q ∧ stage p.state ≤ stage q.state)
      (taken : proposalStep E g call = some (reply, next)) :
      ∃ q, next.proposals[id]? = some q ∧ stage p.state ≤ stage q.state := by
    obtain ⟨q, known, later⟩ := h
    obtain ⟨q', known', further⟩ := stage_step (proposalStep_moved taken) known
    exact ⟨q', known', later.trans further⟩
  exact run_keeps_state keeps ⟨p, held, le_refl _⟩ ran

theorem refused_unchanged {call : ProposalCall Value} {e : ProposalError}
    (taken : proposalStep E r call = some (.marked (.error e), next)) : next = r := by
  cases proposalStep_moved taken with
  | refused => rfl

end

/-- Any calls in any order. The trail of an id tells whether it is known and how far it has
come; what is refused leaves the registry and the trail as they were. -/
theorem trail_determines_registry {Value : Type} (E : AiExternals Value) (calls : List (ProposalCall Value)) :
    ∃ history r, run (proposalStep E) .new calls = some (history, r) ∧
      (∀ id, (r.proposals[id]?.isSome ↔ (trail r.audit id).count "proposal_submitted" = 1) ∧
        ((∃ p, r.proposals[id]? = some p ∧ p.state ≠ .proposed) ↔
          ["proposal_submitted", "proposal_specified"].Sublist (trail r.audit id)) ∧
        ((∃ p, r.proposals[id]? = some p ∧ p.state = .handedToVM) ↔
          ["proposal_submitted", "proposal_specified", "proposal_handed_to_vm"].Sublist (trail r.audit id)) ∧
        ∀ kind, (trail r.audit id).count kind ≤ 1) ∧
      (∀ begun rest, history = begun ++ rest → ∃ mid,
        run (proposalStep E) .new (begun.map Prod.fst) = some (begun, mid) ∧
          ∀ (id : String) p, mid.proposals[id]? = some p →
            ∃ q, r.proposals[id]? = some q ∧ stage p.state ≤ stage q.state) ∧
      (∀ begun call e rest, history = begun ++ (call, .marked (.error e)) :: rest → ∃ mid,
        run (proposalStep E) .new (begun.map Prod.fst) = some (begun, mid) ∧
          proposalStep E mid call = some (.marked (.error e), mid)) ∧
      r.audit.verify E.shaHex = true := by
  obtain ⟨⟨history, r⟩, ran⟩ :=
    Option.isSome_iff_exists.mp (run_isSome (proposalStep_isSome (E := E)) .new calls)
  have recorded := recorded_run ran
  refine ⟨history, r, ran, fun id => ?_, ?_, ?_, recorded.verifies⟩
  · rw [recorded.trails, ← lifecycle_submitted, ← lifecycle_specified, ← lifecycle_handed, stateAt]
    refine ⟨by rw [Option.isSome_map], ?_, ?_, lifecycle_count_le _⟩
    · constructor
      · rintro ⟨p, held, further⟩
        exact ⟨p.state, by rw [held, Option.map_some], further⟩
      · rintro ⟨_, known, further⟩
        obtain ⟨p, held, rfl⟩ := Option.map_eq_some_iff.mp known
        exact ⟨p, held, further⟩
    · rw [Option.map_eq_some_iff]
  · rintro begun rest rfl
    obtain ⟨mid, first, others⟩ := run_cut ran
    exact ⟨mid, first, fun id p held => stage_run others held⟩
  · rintro begun call e rest rfl
    obtain ⟨mid, next, first, taken, -⟩ := run_split ran
    cases refused_unchanged taken
    exact ⟨mid, first, taken⟩

end KaiOs.Ai
