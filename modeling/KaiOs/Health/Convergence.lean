import KaiOs.Health.Gossip
import Mathlib.Data.List.Induction

/-! What the consensus view of an instance depends on: its last own observations and the messages
it received, in any order and any number of times. Two reports of one observer with the same tick
are kept in the order they come in, so the view is settled only where they do not decide it. -/
namespace KaiOs.Health
open List Latest

inductive GossipCall where
  | observe (nodeId : String) (status : HealthStatus) (tick : UInt64)
  | merge (observer : String) (remote : List NodeHealth)

namespace HealthGossip

def call (g : HealthGossip) : GossipCall → HealthGossip
  | .observe nodeId status tick => g.observe nodeId status tick
  | .merge observer remote => (g.merge observer remote).2

def after (selfId : String) (calls : List GossipCall) : HealthGossip := calls.foldl call (new selfId)

end HealthGossip

def observed (nodeId : String) (own : Option NodeHealth) : GossipCall → Option NodeHealth
  | .observe node status tick => if node = nodeId then some ⟨node, status, tick⟩ else own
  | .merge _ _ => own

/-- The last own observation of a node. -/
def ownObservation (calls : List GossipCall) (nodeId : String) : Option NodeHealth :=
  calls.foldl (observed nodeId) none

section
variable (selfId : String)

/-- What an observer reports: the instance its last own observations, and everything in messages. -/
def Reported (calls : List GossipCall) (observer : String) (e : NodeHealth) : Prop :=
  (observer = selfId ∧ ownObservation calls e.nodeId = some e) ∨
    ∃ remote, .merge observer remote ∈ calls ∧ e ∈ remote

/-- No own observation of a node comes behind a message in the own name that tells of the node:
`observe` overwrites what such a message left. -/
def OwnFirst (calls : List GossipCall) : Prop :=
  ∀ front rest node status tick remote, calls = front ++ .observe node status tick :: rest →
    .merge selfId remote ∈ front → ∀ e ∈ remote, e.nodeId ≠ node

/-- At the latest tick reported of a node, no observer reports it in two states. -/
def Decided (calls : List GossipCall) : Prop :=
  ∀ observer e e', Reported selfId calls observer e → Reported selfId calls observer e' →
    e.nodeId = e'.nodeId → e.tick = e'.tick →
    (∀ other r, Reported selfId calls other r → r.nodeId = e.nodeId → r.tick ≤ e.tick) → e.status = e'.status

def hear (observer nodeId : String) (kept : List NodeHealth) : GossipCall → List NodeHealth
  | .observe node status tick => if observer = selfId ∧ node = nodeId then [⟨node, status, tick⟩] else kept
  | .merge sender remote => if sender = observer then kept ++ remote.filter (fun r => r.nodeId = nodeId) else kept

/-- The reports that compete for a slot, in the order they came in. -/
def heard (calls : List GossipCall) (observer nodeId : String) : List NodeHealth :=
  calls.foldl (hear selfId observer nodeId) []

variable {selfId}

theorem after_selfId (selfId : String) (calls : List GossipCall) :
    (HealthGossip.after selfId calls).selfId = selfId := by
  induction calls using List.reverseRecOn with
  | nil => rfl
  | append_singleton calls c ih =>
      rw [HealthGossip.after, List.foldl_concat]
      cases c <;> exact ih

theorem slot_after (calls : List GossipCall) (observer nodeId : String) :
    (HealthGossip.after selfId calls).slot observer nodeId =
      argmax NodeHealth.time (heard selfId calls observer nodeId) := by
  induction calls using List.reverseRecOn with
  | nil =>
      rw [HealthGossip.after, List.foldl_nil, HealthGossip.slot, HealthGossip.new, Std.ExtTreeMap.getElem?_empty]
      rfl
  | append_singleton calls c ih =>
      rw [HealthGossip.after, heard, List.foldl_concat, List.foldl_concat]
      cases c with
      | observe node status tick =>
          have self := after_selfId selfId calls
          rw [HealthGossip.after] at self
          rw [HealthGossip.call, slot_observe, self, hear]
          split
          · rw [argmax_singleton]
          · exact ih
      | merge sender remote =>
          rw [HealthGossip.call, slot_merge, hear]
          split
          · rw [argmax_append]
            exact congrArg (List.foldl _ · _) ih
          · exact ih

theorem ownFirst_of_concat {calls : List GossipCall} {c : GossipCall} (first : OwnFirst selfId (calls ++ [c])) :
    OwnFirst selfId calls := by
  intro front rest node status tick remote same
  exact first front (rest ++ [c]) node status tick remote (by rw [same, List.append_assoc, List.cons_append])

theorem reported_merge {calls : List GossipCall} {sender observer : String} {remote : List NodeHealth}
    {e : NodeHealth} : Reported selfId (calls ++ [.merge sender remote]) observer e ↔
      Reported selfId calls observer e ∨ sender = observer ∧ e ∈ remote := by
  have own : ownObservation (calls ++ [.merge sender remote]) e.nodeId = ownObservation calls e.nodeId := by
    rw [ownObservation, List.foldl_concat, observed, ownObservation]
  have sent (message : List NodeHealth) : .merge observer message ∈ calls ++ [.merge sender remote] ↔
      .merge observer message ∈ calls ∨ observer = sender ∧ message = remote := by simp
  rw [Reported, Reported, own, or_assoc]
  refine or_congr_right ⟨?_, ?_⟩
  · rintro ⟨message, member, inside⟩
    rcases (sent message).mp member with before | ⟨rfl, rfl⟩
    · exact .inl ⟨message, before, inside⟩
    · exact .inr ⟨rfl, inside⟩
  · rintro (⟨message, before, inside⟩ | ⟨rfl, inside⟩)
    · exact ⟨message, (sent message).mpr (.inl before), inside⟩
    · exact ⟨remote, (sent remote).mpr (.inr ⟨rfl, rfl⟩), inside⟩

theorem reported_observe {calls : List GossipCall} {node observer : String} {status : HealthStatus} {tick : UInt64}
    {e : NodeHealth} : Reported selfId (calls ++ [.observe node status tick]) observer e ↔
      if observer = selfId ∧ node = e.nodeId then
        e = ⟨node, status, tick⟩ ∨ ∃ remote, .merge observer remote ∈ calls ∧ e ∈ remote
      else Reported selfId calls observer e := by
  have sent (remote : List NodeHealth) : .merge observer remote ∈ calls ++ [.observe node status tick] ↔
      .merge observer remote ∈ calls := by simp
  simp only [Reported, sent]
  rw [ownObservation, List.foldl_concat, observed]
  by_cases newest : observer = selfId ∧ node = e.nodeId
  · rw [if_pos newest, if_pos newest.2, Option.some.injEq]
    exact or_congr_left ((and_iff_right newest.1).trans eq_comm)
  · rw [if_neg newest]
    refine or_congr_left (and_congr_right fun self => ?_)
    rw [if_neg fun same => newest ⟨self, same⟩, ownObservation]

/-- Unless an own observation overwrites a report, every report competes. -/
theorem mem_heard {calls : List GossipCall} (first : OwnFirst selfId calls) {observer nodeId : String}
    {e : NodeHealth} :
    e ∈ heard selfId calls observer nodeId ↔ e.nodeId = nodeId ∧ Reported selfId calls observer e := by
  induction calls using List.reverseRecOn with
  | nil =>
      refine ⟨nofun, ?_⟩
      rintro ⟨-, ⟨-, own⟩ | ⟨remote, sent, -⟩⟩
      · exact nomatch own
      · exact nomatch sent
  | append_singleton calls c ih =>
      replace ih := ih (ownFirst_of_concat first)
      rw [heard, List.foldl_concat]
      cases c with
      | observe node status tick =>
          rw [hear, reported_observe]
          split
          next newest =>
            obtain ⟨rfl, rfl⟩ := newest
            rw [List.mem_singleton]
            constructor
            · rintro rfl
              exact ⟨rfl, (if_pos ⟨rfl, rfl⟩).mpr (.inl rfl)⟩
            · rintro ⟨about, report⟩
              rcases (if_pos ⟨rfl, about.symm⟩).mp report with same | ⟨remote, sent, inside⟩
              · exact same
              · exact absurd about (first calls [] node status tick remote rfl sent e inside)
          next older =>
            refine ih.trans (and_congr_right fun about => ?_)
            rw [if_neg (about ▸ older)]
      | merge sender remote =>
          rw [hear, reported_merge, and_or_left]
          split
          next own =>
            rw [List.mem_append, List.mem_filter, decide_eq_true_iff, and_iff_right own]
            exact or_congr ih and_comm
          next others => exact ih.trans (or_iff_left fun told => others told.2.1).symm

theorem untied_heard {calls : List GossipCall} (first : OwnFirst selfId calls) (decided : Decided selfId calls)
    (nodeId : String) : Untied NodeHealth.time fun observer => heard selfId calls observer nodeId := by
  intro observer a mine b other tie latest
  obtain ⟨rfl, report⟩ := (mem_heard first).mp mine
  obtain ⟨node, report'⟩ := (mem_heard first).mp other
  have status := decided observer a b report report' node.symm (UInt64.toNat_inj.mp tie) fun o r reported about =>
    UInt64.le_iff_toNat_le.mpr (latest o r ((mem_heard first).mpr ⟨about, reported⟩))
  refine eq_of_rank node.symm ?_
  rw [NodeHealth.rank, NodeHealth.rank, status, show a.tick.toNat = b.tick.toNat from tie]

/-- Every report there was, overwritten ones too. -/
def reports (selfId : String) : List GossipCall → List (String × NodeHealth)
  | [] => []
  | .observe node status tick :: calls => (selfId, ⟨node, status, tick⟩) :: reports selfId calls
  | .merge observer remote :: calls => remote.map (observer, ·) ++ reports selfId calls

theorem reports_append (calls more : List GossipCall) :
    reports selfId (calls ++ more) = reports selfId calls ++ reports selfId more := by
  induction calls with
  | nil => rfl
  | cons c calls ih => cases c <;> simp only [List.cons_append, reports, ih, List.append_assoc]

theorem reported_mem {calls : List GossipCall} {observer : String} {e : NodeHealth}
    (report : Reported selfId calls observer e) : (observer, e) ∈ reports selfId calls := by
  rcases report with ⟨rfl, own⟩ | ⟨remote, member, inside⟩
  · induction calls using List.reverseRecOn with
    | nil => exact nomatch own
    | append_singleton calls c ih =>
        rw [ownObservation, List.foldl_concat] at own
        rw [reports_append, List.mem_append]
        cases c with
        | observe node status tick =>
            rw [observed] at own
            split at own
            · cases own
              exact .inr List.mem_cons_self
            · exact .inl (ih own)
        | merge _ _ => exact .inl (ih own)
  · obtain ⟨front, rest, rfl⟩ := List.append_of_mem member
    rw [reports_append, reports]
    exact List.mem_append_right _ (List.mem_append_left _ (List.mem_map_of_mem inside))

theorem decided_of_reports {calls : List GossipCall}
    (once : ∀ p ∈ reports selfId calls, ∀ q ∈ reports selfId calls, p.1 = q.1 → p.2.nodeId = q.2.nodeId →
      p.2.tick = q.2.tick → p.2.status = q.2.status) : Decided selfId calls :=
  fun _ _ _ report report' node tick _ => once _ (reported_mem report) _ (reported_mem report') rfl node tick

theorem ownFirst_of_silent {calls : List GossipCall} (silent : ∀ remote, .merge selfId remote ∉ calls) :
    OwnFirst selfId calls := by
  rintro front rest node status tick remote rfl sent
  exact absurd (List.mem_append_left _ sent) (silent remote)

theorem kept_iff (calls : List GossipCall) (nodeId : String) (e : NodeHealth) :
    e ∈ (HealthGossip.after selfId calls).observations.toList.filterMap (fun (_, observed) => observed[nodeId]?) ↔
      ∃ observer, argmax NodeHealth.time (heard selfId calls observer nodeId) = some e := by
  rw [mem_slots]
  simp only [slot_after]

end

/-- Two instances with the same last own observations and the same messages view every node alike,
in whatever order and however often the messages came, where no tie is left to their order. -/
theorem views_converge {selfId selfId' : String} {calls calls' : List GossipCall}
    (own : ∀ nodeId, ownObservation calls nodeId = ownObservation calls' nodeId)
    (messages : ∀ observer remote, .merge observer remote ∈ calls ↔ .merge observer remote ∈ calls')
    (first : OwnFirst selfId calls) (first' : OwnFirst selfId' calls')
    (decided : Decided selfId calls) (decided' : Decided selfId' calls') (nodeId : String) :
    (HealthGossip.after selfId calls).consensusView nodeId =
      (HealthGossip.after selfId' calls').consensusView nodeId := by
  have reported (e : NodeHealth) :
      (∃ observer, Reported selfId calls observer e) ↔ ∃ observer, Reported selfId' calls' observer e := by
    simp only [Reported, exists_or, exists_and_right, exists_eq, true_and, own, messages]
  rw [consensusView_eq, consensusView_eq]
  refine staged_eq (fun a b below => ?_) (untied_heard first decided nodeId) (untied_heard first' decided' nodeId)
    (kept_iff calls nodeId) (kept_iff calls' nodeId) (fun e => ?_) fun i a mine j b other same => ?_
  · rw [NodeHealth.rank, NodeHealth.rank, Prod.Lex.toLex_le_toLex] at below
    rcases below with earlier | ⟨tie, -⟩
    · exact Nat.le_of_lt earlier
    · exact Nat.le_of_eq tie
  · simp only [mem_heard first, mem_heard first', exists_and_left, reported]
  · have about := ((mem_heard first).mp mine).1
    exact eq_of_rank (about.trans ((mem_heard first).mp other).1.symm) same

theorem views_converge_reordered :
    (HealthGossip.after "node-a" [.observe "node-b" .healthy 10, .merge "node-c" [⟨"node-b", .dead, 12⟩],
        .merge "node-d" [⟨"node-b", .healthy, 5⟩]]).consensusView "node-b" =
      (HealthGossip.after "node-a" [.merge "node-d" [⟨"node-b", .healthy, 5⟩],
        .merge "node-c" [⟨"node-b", .dead, 12⟩], .observe "node-b" .healthy 10,
        .merge "node-d" [⟨"node-b", .healthy, 5⟩]]).consensusView "node-b" :=
  views_converge (fun _ => rfl) (fun _ _ => by simp [or_comm]) (ownFirst_of_silent (by simp))
    (ownFirst_of_silent (by simp [HealthGossip.new])) (decided_of_reports (by decide))
    (decided_of_reports (by decide)) "node-b"

/-- Of two reports with one tick the observer's slot keeps the one that came first. -/
theorem tie_follows_order :
    ¬ ∀ (selfId : String) (calls calls' : List GossipCall),
      (∀ nodeId, ownObservation calls nodeId = ownObservation calls' nodeId) →
      (∀ observer remote, .merge observer remote ∈ calls ↔ .merge observer remote ∈ calls') →
      ∀ nodeId, (HealthGossip.after selfId calls).consensusView nodeId =
        (HealthGossip.after selfId calls').consensusView nodeId := by
  intro converge
  have alike := converge "node-a"
    [.merge "node-c" [⟨"node-x", .healthy, 7⟩], .merge "node-c" [⟨"node-x", .dead, 7⟩]]
    [.merge "node-c" [⟨"node-x", .dead, 7⟩], .merge "node-c" [⟨"node-x", .healthy, 7⟩]]
    (fun _ => rfl) (fun _ _ => by simp [or_comm]) "node-x"
  exact absurd alike (by decide)

/-- An own observation overwrites what a message in the own name brought. -/
example :
    (HealthGossip.after "node-a"
        [.observe "node-x" .healthy 5, .merge "node-a" [⟨"node-x", .dead, 9⟩]]).consensusView "node-x" =
      some ⟨"node-x", .dead, 9⟩ ∧
    (HealthGossip.after "node-a"
        [.merge "node-a" [⟨"node-x", .dead, 9⟩], .observe "node-x" .healthy 5]).consensusView "node-x" =
      some ⟨"node-x", .healthy, 5⟩ := by
  decide

end KaiOs.Health
