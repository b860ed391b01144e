import KaiOs.Ai.Ipc
import KaiOs.Lib.Sha256

/-! Runs of the gateway: registrations and messages of any agents, in any order. -/
namespace KaiOs.Ai
open IpcGateway Traces

inductive IpcCall (Value : Type) where
  | register (agent : String) (msgTypes : List String)
  | deliver (msg : IpcMessage Value)

/-- A registration has no result. -/
abbrev IpcReply := Option (Except IpcError DeliveryReceipt)

namespace IpcCall
variable {Value : Type}

/-- The agent a call is about. -/
def agent : IpcCall Value → String
  | register agent _ => agent
  | deliver msg => msg.fromAgent

end IpcCall

section
variable {Value : Type} (E : AiExternals Value)

def ipcStep (g : IpcGateway) : IpcCall Value → Option (IpcReply × IpcGateway)
  | .register agent msgTypes => some (none, g.registerAgent E agent msgTypes)
  | .deliver msg => some (some (g.deliver E msg).1, (g.deliver E msg).2)

/-- The sequence number that a call of the agent was accepted with. -/
def acceptedSeq (agent : String) : IpcCall Value × IpcReply → Option UInt64
  | (.deliver msg, some (.ok _)) => if msg.fromAgent = agent then some msg.seq else none
  | _ => none

/-- The types that a call registers the agent for. -/
def granted (agent : String) : IpcCall Value × IpcReply → Option (List String)
  | (.register other msgTypes, _) => if other = agent then some msgTypes else none
  | _ => none

def acceptedSeqs (agent : String) (history : List (IpcCall Value × IpcReply)) : List UInt64 :=
  history.filterMap (acceptedSeq agent)

/-- The types of the most recent registration. -/
def registered (agent : String) (history : List (IpcCall Value × IpcReply)) : Option (List String) :=
  history.reverse.findSome? (granted agent)

/-- How a call of the agent was answered, without the number in the trail. -/
def verdict (agent : String) (entry : IpcCall Value × IpcReply) :
    Option (IpcCall Value × Option (Except IpcError UInt64)) :=
  if entry.1.agent = agent then some (entry.1, entry.2.map fun result => result.map (·.seq)) else none

def verdicts (agent : String) (history : List (IpcCall Value × IpcReply)) :
    List (IpcCall Value × Option (Except IpcError UInt64)) :=
  history.filterMap (verdict agent)

def Rejected : IpcReply → Prop
  | some (.error _) => True
  | _ => False

/-- The decision on a message with what the gateway knows of its sender. -/
def verdictOn (g : IpcGateway) (msg : IpcMessage Value) : Except IpcError UInt64 :=
  decision E g.capabilities[msg.fromAgent]? ((g.lastSeq[msg.fromAgent]?).getD 0) msg

end

section
variable {Value : Type} {E : AiExternals Value} {g next : IpcGateway} {msg : IpcMessage Value}

theorem deliver_error {e : IpcError} (h : (g.deliver E msg).1 = .error e) :
    verdictOn E g msg = .error e ∧ ∃ kind detail, (g.deliver E msg).2 = g.reject E kind detail := by
  obtain ⟨e', kind, detail, decided, delivered⟩ | ⟨decided, delivered⟩ := deliver_spec (E := E) g msg
  · rw [delivered] at h ⊢
    cases h
    exact ⟨decided, kind, detail, rfl⟩
  · rw [delivered] at h
    cases h

theorem deliver_ok {receipt : DeliveryReceipt} (h : (g.deliver E msg).1 = .ok receipt) :
    verdictOn E g msg = .ok msg.seq ∧
      receipt = ⟨msg.seq, (g.audit.record E.shaHex msg.fromAgent msg.msgType (E.text msg.payload)).1⟩ ∧
      (g.deliver E msg).2 = ⟨g.capabilities, g.lastSeq.insert msg.fromAgent msg.seq,
        (g.audit.record E.shaHex msg.fromAgent msg.msgType (E.text msg.payload)).2⟩ := by
  obtain ⟨e, kind, detail, decided, delivered⟩ | ⟨decided, delivered⟩ := deliver_spec (E := E) g msg
  · rw [delivered] at h
    cases h
  · rw [delivered] at h ⊢
    cases h
    exact ⟨decided, rfl, rfl⟩

theorem deliver_map_seq (g : IpcGateway) (msg : IpcMessage Value) :
    (g.deliver E msg).1.map (·.seq) = verdictOn E g msg := by
  cases result : (g.deliver E msg).1 with
  | error e => exact (deliver_error result).1.symm
  | ok receipt =>
      rw [(deliver_ok result).1, (deliver_ok result).2.1]
      rfl

theorem ipcStep_cases {call : IpcCall Value} {reply : IpcReply} (taken : ipcStep E g call = some (reply, next)) :
    (∃ agent msgTypes, call = .register agent msgTypes ∧ reply = none ∧ next = g.registerAgent E agent msgTypes) ∨
    (∃ msg e kind detail, call = .deliver msg ∧ reply = some (.error e) ∧ next = g.reject E kind detail) ∨
    ∃ msg, call = .deliver msg ∧ verdictOn E g msg = .ok msg.seq ∧
      reply = some (.ok ⟨msg.seq,
        (g.audit.record E.shaHex msg.fromAgent msg.msgType (E.text msg.payload)).1⟩) ∧
      next = ⟨g.capabilities, g.lastSeq.insert msg.fromAgent msg.seq,
        (g.audit.record E.shaHex msg.fromAgent msg.msgType (E.text msg.payload)).2⟩ := by
  cases call with
  | register agent msgTypes =>
      cases taken
      exact .inl ⟨agent, msgTypes, rfl, rfl, rfl⟩
  | deliver msg =>
      cases taken
      cases result : (g.deliver E msg).1 with
      | error e =>
          obtain ⟨-, kind, detail, same⟩ := deliver_error result
          exact .inr (.inl ⟨msg, e, kind, detail, rfl, rfl, same⟩)
      | ok receipt =>
          obtain ⟨decided, rfl, same⟩ := deliver_ok result
          exact .inr (.inr ⟨msg, rfl, decided, rfl, same⟩)

theorem ipcStep_audit {call : IpcCall Value} {reply : IpcReply} (taken : ipcStep E g call = some (reply, next)) :
    ∃ actor kind detail, next.audit = (g.audit.record E.shaHex actor kind detail).2 ∧
      ∀ receipt, reply = some (.ok receipt) →
        receipt.auditSeq = (g.audit.record E.shaHex actor kind detail).1 := by
  obtain ⟨agent, msgTypes, rfl, rfl, rfl⟩ | ⟨msg, e, kind, detail, rfl, rfl, rfl⟩ | ⟨msg, rfl, -, rfl, rfl⟩ :=
    ipcStep_cases taken
  · exact ⟨_, _, _, rfl, nofun⟩
  · exact ⟨_, _, _, rfl, nofun⟩
  · exact ⟨_, _, _, rfl, fun receipt h => by cases h; rfl⟩

theorem ipcStep_capabilities {call : IpcCall Value} {reply : IpcReply}
    (taken : ipcStep E g call = some (reply, next)) (agent : String) :
    next.capabilities[agent]? = (granted agent (call, reply)).or g.capabilities[agent]? := by
  obtain ⟨other, msgTypes, rfl, rfl, rfl⟩ | ⟨msg, e, kind, detail, rfl, rfl, rfl⟩ | ⟨msg, rfl, -, rfl, rfl⟩ :=
    ipcStep_cases taken
  · rw [registerAgent, granted, lookup_insert]
    split_ifs
    · rw [Option.some_or]
    · rw [Option.none_or]
  · rfl
  · rfl

theorem ipcStep_lastSeq {call : IpcCall Value} {reply : IpcReply}
    (taken : ipcStep E g call = some (reply, next)) (agent : String) :
    next.lastSeq[agent]? = (acceptedSeq agent (call, reply)).or g.lastSeq[agent]? := by
  obtain ⟨other, msgTypes, rfl, rfl, rfl⟩ | ⟨msg, e, kind, detail, rfl, rfl, rfl⟩ | ⟨msg, rfl, -, rfl, rfl⟩ :=
    ipcStep_cases taken
  · rfl
  · rfl
  · rw [acceptedSeq, lookup_insert]
    split_ifs
    · rw [Option.some_or]
    · rw [Option.none_or]

/-- What an accepted message has passed. -/
theorem accepted_spec {call : IpcCall Value} {reply : IpcReply} {agent : String} {s : UInt64}
    (taken : ipcStep E g call = some (reply, next)) (accepted : acceptedSeq agent (call, reply) = some s) :
    ∃ msg, call = .deliver msg ∧ msg.fromAgent = agent ∧ msg.seq = s ∧ verdictOn E g msg = .ok s := by
  obtain ⟨other, msgTypes, rfl, rfl, -⟩ | ⟨msg, e, kind, detail, rfl, rfl, -⟩ | ⟨msg, rfl, decided, rfl, -⟩ :=
    ipcStep_cases taken
  · cases accepted
  · cases accepted
  · rw [acceptedSeq] at accepted
    split_ifs at accepted with own
    cases accepted
    exact ⟨msg, rfl, own, rfl, decided⟩

end

section
variable {Value : Type} {E : AiExternals Value}

/-- What the gateway holds is what the history says. -/
structure Tracks (past : List (IpcCall Value × IpcReply)) (g : IpcGateway) : Prop where
  capabilities : ∀ agent, g.capabilities[agent]? = registered agent past
  below : ∀ agent, ∀ s ∈ acceptedSeqs agent past, s ≤ (g.lastSeq[agent]?).getD 0
  increasing : ∀ agent, (acceptedSeqs agent past).Pairwise (· < ·)
  length : g.audit.events.length = past.length
  numbered : ∀ (i : ℕ) call receipt, past[i]? = some (call, some (.ok receipt)) →
    ∃ event, g.audit.events[i]? = some event ∧ event.seq = receipt.auditSeq
  verifies : g.audit.verify E.shaHex = true

theorem tracks_new : Tracks (E := E) [] new := by
  refine ⟨fun agent => Std.ExtTreeMap.getElem?_empty, fun agent s member => ?_, fun agent => .nil, rfl, nofun, rfl⟩
  cases member

theorem tracks_step (past : List (IpcCall Value × IpcReply)) (g : IpcGateway) (call : IpcCall Value)
    (reply : IpcReply) (next : IpcGateway) (h : Tracks (E := E) past g)
    (taken : ipcStep E g call = some (reply, next)) : Tracks (E := E) (past ++ [(call, reply)]) next := by
  obtain ⟨actor, kind, detail, audit, receipts⟩ := ipcStep_audit taken
  have accepted (agent : String) : acceptedSeqs agent (past ++ [(call, reply)]) =
      acceptedSeqs agent past ++ (acceptedSeq agent (call, reply)).toList := by
    rw [acceptedSeqs, List.filterMap_append, List.filterMap_cons, List.filterMap_nil, acceptedSeqs]
    cases acceptedSeq agent (call, reply) <;> rfl
  have fresh (agent : String) (s : UInt64) (new : acceptedSeq agent (call, reply) = some s) :
      (g.lastSeq[agent]?).getD 0 < s := by
    obtain ⟨msg, rfl, rfl, rfl, decided⟩ := accepted_spec taken new
    exact (decision_ok decided).2.1
  refine ⟨fun agent => ?_, fun agent s member => ?_, fun agent => ?_, ?_, fun i c receipt found => ?_, ?_⟩
  · rw [ipcStep_capabilities taken, h.capabilities, registered, registered, List.reverse_concat,
      List.findSome?_cons]
    cases granted agent (call, reply) <;> rfl
  · rw [ipcStep_lastSeq taken]
    rw [accepted] at member
    cases new : acceptedSeq agent (call, reply) with
    | none =>
        rw [new, Option.toList_none, List.append_nil] at member
        exact h.below agent s member
    | some last =>
        rw [new, Option.toList_some] at member
        obtain old | final := List.mem_append.mp member
        · exact UInt64.le_trans (h.below agent s old) (UInt64.le_of_lt (fresh agent last new))
        · cases List.mem_singleton.mp final
          exact UInt64.le_refl _
  · rw [accepted]
    cases new : acceptedSeq agent (call, reply) with
    | none =>
        rw [Option.toList_none, List.append_nil]
        exact h.increasing agent
    | some last =>
        rw [Option.toList_some, List.pairwise_append]
        refine ⟨h.increasing agent, List.pairwise_singleton _ _, fun s member t final => ?_⟩
        cases List.mem_singleton.mp final
        exact UInt64.lt_of_le_of_lt (h.below agent s member) (fresh agent _ new)
  · rw [audit, List.length_append, AuditPipeline.record, List.length_append, h.length]
    rfl
  · obtain ⟨event, events, number, -⟩ := g.audit.record_events E.shaHex actor kind detail
    rw [audit, events]
    obtain old | ⟨rfl, own⟩ := getElem?_concat_cases found
    · obtain ⟨event', held, same⟩ := h.numbered i c receipt old
      have inside : i < g.audit.events.length := (List.getElem?_eq_some_iff.mp held).1
      exact ⟨event', by rw [List.getElem?_append_left inside, held], same⟩
    · cases own
      exact ⟨event, by rw [← h.length, List.getElem?_concat_length], number.trans (receipts receipt rfl).symm⟩
  · rw [audit]
    exact AuditPipeline.verify_record E.shaHex h.verifies actor kind detail

theorem verdict_own {agent : String} {call : IpcCall Value} (own : call.agent = agent) (reply : IpcReply) :
    verdict agent (call, reply) = some (call, reply.map fun result => result.map (·.seq)) := if_pos own

theorem verdict_other {agent : String} {call : IpcCall Value} (other : call.agent ≠ agent) (reply : IpcReply) :
    verdict agent (call, reply) = none := if_neg other

/-- Two gateways that know the same of one agent. -/
def SameFor (agent : String) (g h : IpcGateway) : Prop :=
  g.capabilities[agent]? = h.capabilities[agent]? ∧ g.lastSeq[agent]? = h.lastSeq[agent]?

theorem sameFor_of_hidden {agent : String} {g h next : IpcGateway} {call : IpcCall Value} {reply : IpcReply}
    (same : SameFor agent g h) (taken : ipcStep E g call = some (reply, next))
    (hidden : Rejected reply ∨ call.agent ≠ agent) : SameFor agent next h := by
  have silent : granted agent (call, reply) = none ∧ acceptedSeq agent (call, reply) = none := by
    cases call with
    | register other msgTypes =>
        cases taken
        obtain rejected | other := hidden
        · cases rejected
        · exact ⟨if_neg other, rfl⟩
    | deliver msg =>
        refine ⟨rfl, ?_⟩
        rcases reply with _ | (_ | _)
        · rfl
        · rfl
        · obtain rejected | other := hidden
          · cases rejected
          · exact if_neg other
  rw [SameFor, ipcStep_capabilities taken, ipcStep_lastSeq taken, silent.1, silent.2]
  exact same

theorem acceptedSeq_of_verdict {agent : String} {call : IpcCall Value} {reply reply' : IpcReply}
    (h : verdict agent (call, reply') = verdict agent (call, reply)) :
    acceptedSeq agent (call, reply') = acceptedSeq agent (call, reply) := by
  cases call with
  | register other msgTypes => rfl
  | deliver msg =>
      by_cases own : (IpcCall.deliver msg).agent = agent
      · rw [verdict_own own, verdict_own own] at h
        have maps := (Prod.mk_inj.mp (Option.some.inj h)).2
        rcases reply with _ | (_ | _) <;> rcases reply' with _ | (_ | _) <;> first | rfl | cases maps
      · have away (r : IpcReply) : acceptedSeq agent (.deliver msg, r) = none := by
          rcases r with _ | (_ | _)
          · rfl
          · rfl
          · exact if_neg own
        rw [away, away]

theorem ipcStep_matched {agent : String} {g h next : IpcGateway} {call : IpcCall Value} {reply : IpcReply}
    (same : SameFor agent g h) (taken : ipcStep E g call = some (reply, next)) :
    ∃ reply' next', ipcStep E h call = some (reply', next') ∧
      verdict agent (call, reply') = verdict agent (call, reply) ∧ SameFor agent next next' := by
  have answer : ∃ reply' next', ipcStep E h call = some (reply', next') ∧
      verdict agent (call, reply') = verdict agent (call, reply) := by
    cases call with
    | register other msgTypes =>
        cases taken
        exact ⟨none, _, rfl, rfl⟩
    | deliver msg =>
        cases taken
        refine ⟨_, _, rfl, ?_⟩
        by_cases own : (IpcCall.deliver msg).agent = agent
        · have sender : msg.fromAgent = agent := own
          have decided : verdictOn E h msg = verdictOn E g msg := by
            rw [verdictOn, verdictOn, sender, same.1, same.2]
          rw [verdict_own own, verdict_own own, Option.map_some, Option.map_some, deliver_map_seq,
            deliver_map_seq, decided]
        · rw [verdict_other own, verdict_other own]
  obtain ⟨reply', next', taken', alike⟩ := answer
  have grants : granted agent (call, reply') = granted agent (call, reply) := by cases call <;> rfl
  refine ⟨reply', next', taken', alike, ?_⟩
  rw [SameFor, ipcStep_capabilities taken, ipcStep_capabilities taken', ipcStep_lastSeq taken,
    ipcStep_lastSeq taken', grants, acceptedSeq_of_verdict alike, same.1, same.2]
  exact ⟨rfl, rfl⟩

/-- Rejected messages and calls about others can be taken out of a run. -/
theorem verdicts_purge {agent : String} (hidden : IpcCall Value × IpcReply → Bool)
    (allowed : ∀ e, hidden e = true → Rejected e.2 ∨ e.1.agent ≠ agent) {calls : List (IpcCall Value)}
    {g last : IpcGateway} {history : List (IpcCall Value × IpcReply)}
    (ran : run (ipcStep E) g calls = some (history, last)) :
    ∃ history' last', run (ipcStep E) g ((history.filter (! hidden ·)).map Prod.fst) = some (history', last') ∧
      verdicts agent history' = verdicts agent (history.filter (! hidden ·)) := by
  have stays (g h : IpcGateway) (call : IpcCall Value) (reply : IpcReply) (next : IpcGateway)
      (same : SameFor agent g h) (taken : ipcStep E g call = some (reply, next))
      (out : hidden (call, reply) = true) : SameFor agent next h :=
    sameFor_of_hidden same taken (allowed _ out)
  have matched (g h : IpcGateway) (call : IpcCall Value) (reply : IpcReply) (next : IpcGateway)
      (same : SameFor agent g h) (taken : ipcStep E g call = some (reply, next))
      (_ : hidden (call, reply) = false) : ∃ reply' next', ipcStep E h call = some (reply', next') ∧
        verdict agent (call, reply') = verdict agent (call, reply) ∧ SameFor agent next next' :=
    ipcStep_matched same taken
  have self : SameFor agent g g := ⟨rfl, rfl⟩
  obtain ⟨history', last', again, alike, -⟩ := purge hidden stays matched self ran
  refine ⟨history', last', again, ?_⟩
  have listed := congrArg (List.filterMap id) alike
  rwa [List.filterMap_map, List.filterMap_map] at listed

theorem ipcStep_isSome (g : IpcGateway) (call : IpcCall Value) : (ipcStep E g call).isSome := by
  cases call <;> rfl

theorem run_tracks {calls : List (IpcCall Value)} {history : List (IpcCall Value × IpcReply)}
    {g : IpcGateway} (ran : run (ipcStep E) new calls = some (history, g)) : Tracks (E := E) history g :=
  run_keeps tracks_step tracks_new ran

end

/-- Any calls by any agents. The trail has one event for each call, in their order. -/
theorem gateway_run {Value : Type} (E : AiExternals Value) (calls : List (IpcCall Value)) :
    ∃ history g, run (ipcStep E) new calls = some (history, g) ∧
      (∀ agent, (acceptedSeqs agent history).Pairwise (· < ·)) ∧
      (∀ begun msg receipt rest, history = begun ++ (.deliver msg, some (.ok receipt)) :: rest →
        ∃ types, registered msg.fromAgent begun = some types ∧ msg.msgType ∈ types) ∧
      (∀ agent (hidden : IpcCall Value × IpcReply → Bool),
        (∀ e, hidden e = true → Rejected e.2 ∨ e.1.agent ≠ agent) →
          ∃ history' g', run (ipcStep E) new ((history.filter (! hidden ·)).map Prod.fst) = some (history', g') ∧
            verdicts agent history' = verdicts agent (history.filter (! hidden ·))) ∧
      g.audit.events.length = calls.length ∧
      (∀ (i : ℕ) call receipt, history[i]? = some (call, some (.ok receipt)) →
        ∃ event, g.audit.events[i]? = some event ∧ event.seq = receipt.auditSeq) ∧
      g.audit.verify E.shaHex = true := by
  obtain ⟨⟨history, g⟩, ran⟩ := Option.isSome_iff_exists.mp (run_isSome (ipcStep_isSome (E := E)) new calls)
  have tracks := run_tracks ran
  refine ⟨history, g, ran, tracks.increasing, ?_, fun agent hidden allowed => verdicts_purge hidden allowed ran,
    ?_, tracks.numbered, tracks.verifies⟩
  · rintro begun msg receipt rest rfl
    obtain ⟨mid, next, first, taken, -⟩ := run_split ran
    have accepted : acceptedSeq msg.fromAgent (.deliver msg, some (.ok receipt)) = some msg.seq := if_pos rfl
    obtain ⟨_, same, -, -, decided⟩ := accepted_spec taken accepted
    cases same
    obtain ⟨⟨types, known, member⟩, -⟩ := decision_ok decided
    exact ⟨types, (run_tracks first).capabilities msg.fromAgent ▸ known, member⟩
  · rw [tracks.length, ← run_calls ran, List.length_map]

end KaiOs.Ai
