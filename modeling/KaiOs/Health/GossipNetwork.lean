import KaiOs.Health.ConsensusView
import KaiOs.Lib.Replicas
import KaiOs.Lib.Runs
import Mathlib.Logic.Function.Basic

/-! Nodes that gossip. Each notes its own observations, sends what it holds of any observer and merges what it gets,
in any order, again, late or never; of what is sent nothing is altered on the way. -/
namespace KaiOs.Health
open Replicas

structure GossipNetwork where
  nodes : String → HealthGossip
  sent : List (String × List NodeHealth)

inductive GossipAct where
  | observe (node about : String) (status : HealthStatus) (tick : UInt64)
  | send (node observer : String)
  | deliver (node observer : String) (remote : List NodeHealth)

namespace GossipNetwork

def start : GossipNetwork := ⟨.new, []⟩

/-- Only what was sent is delivered. -/
def act (n : GossipNetwork) : GossipAct → Option GossipNetwork
  | .observe node about status tick =>
      some { n with nodes := Function.update n.nodes node ((n.nodes node).observe about status tick) }
  | .send node observer => some { n with sent := (observer, (n.nodes node).snapshot observer) :: n.sent }
  | .deliver node observer remote =>
      if (observer, remote) ∈ n.sent then
        some { n with nodes := Function.update n.nodes node ((n.nodes node).merge observer remote).2 }
      else none

end GossipNetwork

/-- What an observer has noted of a node, the first note first. -/
def notes (acts : List GossipAct) (observer nodeId : String) : List NodeHealth := acts.filterMap fun a =>
  match a with
  | .observe node about status tick => if observer = node ∧ nodeId = about then some ⟨about, status, tick⟩ else none
  | _ => none

/-- The ticks of an observer do not fall. -/
def Ticking (acts : List GossipAct) : Prop :=
  ∀ observer nodeId, (notes acts observer nodeId).Pairwise fun a b => a.tick ≤ b.tick

/-- No observer notes two states of a node at one tick. -/
def OneState (acts : List GossipAct) : Prop :=
  ∀ observer nodeId, ∀ a ∈ notes acts observer nodeId, ∀ b ∈ notes acts observer nodeId,
    a.tick = b.tick → a.status = b.status

/-- What a message tells of a node. -/
def told (remote : List NodeHealth) (nodeId : String) : Option NodeHealth := remote.find? fun r => r.nodeId = nodeId

/-- Entries are kept under the node they tell of, and no message tells of a node twice. -/
structure Filed (n : GossipNetwork) : Prop where
  self : ∀ node, (n.nodes node).selfId = node
  about : ∀ node observer nodeId e, (n.nodes node).slot observer nodeId = some e → e.nodeId = nodeId
  once : ∀ message ∈ n.sent, (message.2.map NodeHealth.nodeId).Nodup

def GossipNetwork.replicas (n : GossipNetwork) : Net String String NodeHealth where
  copies node := (n.nodes node).slot
  sent := { p | ∃ message ∈ n.sent, (message.1, told message.2) = p }

def GossipAct.replicas : GossipAct → Act String String NodeHealth
  | .observe node about status tick => .write node about ⟨about, status, tick⟩
  | .send node observer => .send node observer
  | .deliver node observer remote => .deliver node observer (told remote)

theorem told_eq_some {remote : List NodeHealth} (once : (remote.map NodeHealth.nodeId).Nodup) {nodeId : String}
    {e : NodeHealth} : told remote nodeId = some e ↔ e ∈ remote ∧ e.nodeId = nodeId := by
  constructor
  · intro found
    exact ⟨List.mem_of_find?_eq_some found, of_decide_eq_true (List.find?_some found :)⟩
  · rintro ⟨member, rfl⟩
    cases found : told remote e.nodeId with
    | none => exact absurd (decide_eq_true rfl) (List.find?_eq_none.mp found e member)
    | some other =>
        have same : other.nodeId = e.nodeId := of_decide_eq_true (List.find?_some found :)
        rw [List.inj_on_of_nodup_map once (List.mem_of_find?_eq_some found) member same]

theorem filter_told {remote : List NodeHealth} (once : (remote.map NodeHealth.nodeId).Nodup) (nodeId : String) :
    (remote.filter fun r => r.nodeId = nodeId) = (told remote nodeId).toList := by
  induction remote with
  | nil => rfl
  | cons r rs ih =>
      obtain ⟨fresh, once⟩ := List.nodup_cons.mp once
      by_cases about : r.nodeId = nodeId
      · rw [List.filter_cons, if_pos (decide_eq_true about), told, List.find?_cons, decide_eq_true about]
        refine congrArg (r :: ·) (List.filter_eq_nil_iff.mpr fun other member same => fresh ?_)
        rw [about, ← of_decide_eq_true same]
        exact List.mem_map_of_mem member
      · rw [List.filter_cons, if_neg (by simpa using about), told, List.find?_cons, decide_eq_false about]
        exact ih once

theorem snapshot_told {g : HealthGossip} {observer : String}
    (about : ∀ nodeId e, g.slot observer nodeId = some e → e.nodeId = nodeId) :
    ((g.snapshot observer).map NodeHealth.nodeId).Nodup ∧ told (g.snapshot observer) = g.slot observer := by
  rw [HealthGossip.snapshot]
  cases held : g.observations[observer]? with
  | none =>
      refine ⟨List.nodup_nil, ?_⟩
      funext nodeId
      rw [HealthGossip.slot, held]
      rfl
  | some entries =>
      have slot (nodeId : String) : g.slot observer nodeId = entries[nodeId]? := by
        rw [HealthGossip.slot, held]
        rfl
      have listed (nodeId : String) (e : NodeHealth) :
          (nodeId, e) ∈ entries.toList ↔ g.slot observer nodeId = some e := by
        rw [slot]
        exact Std.ExtTreeMap.mem_toList_iff_getElem?_eq_some
      have ids : entries.toList.map (NodeHealth.nodeId ∘ Prod.snd) = entries.keys := by
        rw [← Std.ExtTreeMap.map_fst_toList_eq_keys]
        exact List.map_congr_left fun p member => about p.1 p.2 ((listed p.1 p.2).mp member)
      have once : ((entries.toList.map Prod.snd).map NodeHealth.nodeId).Nodup := by
        rw [List.map_map, ids]
        exact entries.nodup_keys
      refine ⟨once, ?_⟩
      funext nodeId
      refine Option.ext fun e => ?_
      rw [Option.map_some, Option.getD_some, told_eq_some once, List.mem_map]
      constructor
      · rintro ⟨⟨p, member, rfl⟩, rfl⟩
        rw [about p.1 p.2 ((listed p.1 p.2).mp member)]
        exact (listed p.1 p.2).mp member
      · intro found
        exact ⟨⟨(nodeId, e), (listed nodeId e).mpr found, rfl⟩, about nodeId e found⟩

theorem keep_told {remote : List NodeHealth} (once : (remote.map NodeHealth.nodeId).Nodup) (nodeId : String)
    (held : Option NodeHealth) :
    (remote.filter fun r => r.nodeId = nodeId).foldl (List.argAux fun b c => c.time < b.time) held =
      keep NodeHealth.time held (told remote nodeId) := by
  rw [filter_told once]
  cases told remote nodeId with
  | none => cases held <;> rfl
  | some _ => cases held <;> rfl

section
variable {n m : GossipNetwork} {a : GossipAct}

theorem start_replicas : Filed .start ∧ GossipNetwork.start.replicas = .init := by
  have empty (node observer nodeId : String) : (HealthGossip.new node).slot observer nodeId = none := by
    rw [HealthGossip.slot, HealthGossip.new, Std.ExtTreeMap.getElem?_empty]
    rfl
  constructor
  · refine ⟨fun node => rfl, fun node observer nodeId e found => ?_, fun message sent => ?_⟩
    · rw [GossipNetwork.start, empty] at found
      cases found
    · cases sent
  · refine congrArg₂ Net.mk ?_ (Set.eq_empty_iff_forall_notMem.mpr ?_)
    · funext node observer nodeId
      exact empty node observer nodeId
    · rintro p ⟨message, sent, -⟩
      cases sent

theorem act_replicas (filed : Filed n) (acted : n.act a = some m) :
    Filed m ∧ Step NodeHealth.time n.replicas a.replicas m.replicas := by
  let named (node : String) (g : HealthGossip) := g.selfId = node
  cases a with
  | observe node about status tick =>
      cases acted
      have slots (i observer nodeId : String) :
          (Function.update n.nodes node ((n.nodes node).observe about status tick) i).slot observer nodeId =
            if i = node ∧ observer = node ∧ nodeId = about then some ⟨about, status, tick⟩
            else (n.nodes i).slot observer nodeId := by
        by_cases own : i = node
        · subst own
          rw [Function.update_self, slot_observe, filed.self]
          simp only [true_and, eq_comm]
        · rw [Function.update_of_ne own, if_neg fun same => own same.1]
      refine ⟨⟨?_, fun i observer nodeId e found => ?_, filed.once⟩, ?_⟩
      · exact (Function.forall_update_iff _ named).mpr ⟨filed.self node, fun i _ => filed.self i⟩
      · rw [slots] at found
        split_ifs at found with own
        · cases found
          exact own.2.2.symm
        · exact filed.about i observer nodeId e found
      · refine (congrArg (Step _ _ _) (congrArg₂ Net.mk ?_ rfl)).mpr
          (.write node about (⟨about, status, tick⟩ : NodeHealth))
        funext i observer nodeId
        exact slots i observer nodeId
  | send node observer =>
      cases acted
      obtain ⟨once, tells⟩ := snapshot_told (filed.about node observer)
      refine ⟨⟨filed.self, filed.about, fun message sent => ?_⟩, ?_⟩
      · obtain rfl | old := List.mem_cons.mp sent
        · exact once
        · exact filed.once message old
      · refine (congrArg (Step _ _ _) (congrArg₂ Net.mk rfl (Set.ext fun p => ?_))).mpr (.send node observer)
        simp only [Set.mem_ofPred_eq, List.mem_cons, exists_eq_or_imp, tells]
        exact or_congr_left eq_comm
  | deliver node observer remote =>
      rw [GossipNetwork.act] at acted
      split_ifs at acted with known
      cases acted
      have once := filed.once _ known
      have slots (i sender nodeId : String) :
          (Function.update n.nodes node ((n.nodes node).merge observer remote).2 i).slot sender nodeId =
            if i = node ∧ sender = observer then
              keep NodeHealth.time ((n.nodes i).slot sender nodeId) (told remote nodeId)
            else (n.nodes i).slot sender nodeId := by
        by_cases own : i = node
        · subst own
          rw [Function.update_self, slot_merge, keep_told once]
          simp only [true_and, eq_comm]
        · rw [Function.update_of_ne own, if_neg fun same => own same.1]
      refine ⟨⟨?_, fun i sender nodeId e found => ?_, filed.once⟩, ?_⟩
      · exact (Function.forall_update_iff _ named).mpr ⟨filed.self node, fun i _ => filed.self i⟩
      · rw [slots] at found
        split_ifs at found with own
        · obtain stays | comes :=
            keep_cases NodeHealth.time ((n.nodes i).slot sender nodeId) (told remote nodeId)
          · exact filed.about i sender nodeId e (stays.symm.trans found)
          · exact ((told_eq_some once).mp (comes.symm.trans found)).2
        · exact filed.about i sender nodeId e found
      · refine (congrArg (Step _ _ _) (congrArg₂ Net.mk ?_ rfl)).mpr
          (.deliver node observer (told remote) ⟨_, known, rfl⟩)
        funext i sender nodeId
        exact slots i sender nodeId

variable {acts front back : List GossipAct} {last : GossipNetwork}

theorem run_replicas (filed : Filed n) (ran : Runs.run GossipNetwork.act n acts = some m) :
    Filed m ∧ Run NodeHealth.time n.replicas (acts.map GossipAct.replicas) m.replicas := by
  induction acts generalizing n with
  | nil =>
      cases ran
      exact ⟨filed, .nil⟩
  | cons a acts ih =>
      obtain ⟨next, first, rest⟩ := Runs.run_cons ran
      obtain ⟨filed, step⟩ := act_replicas filed first
      obtain ⟨filed, run⟩ := ih filed rest
      exact ⟨filed, Run.append (.concat .nil step) run⟩

theorem notes_eq (acts : List GossipAct) (observer nodeId : String) :
    notes acts observer nodeId = writes (acts.map GossipAct.replicas) observer nodeId := by
  rw [notes, writes, List.filterMap_map]
  congr 1
  funext a
  cases a <;> rfl

theorem mem_notes {observer nodeId : String} {e : NodeHealth} :
    e ∈ notes acts observer nodeId ↔ .observe observer nodeId e.status e.tick ∈ acts ∧ e.nodeId = nodeId := by
  rw [notes, List.mem_filterMap]
  constructor
  · rintro ⟨a, member, noted⟩
    cases a with
    | observe node about status tick =>
        dsimp only at noted
        split_ifs at noted with own
        obtain ⟨rfl, rfl⟩ := own
        cases noted
        exact ⟨member, rfl⟩
    | send | deliver => cases noted
  · rintro ⟨member, rfl⟩
    exact ⟨_, member, if_pos ⟨rfl, rfl⟩⟩

theorem Ticking.clocked (ticking : Ticking acts) (observer : String) :
    Clocked NodeHealth.time (acts.map GossipAct.replicas) observer := by
  intro nodeId
  rw [← notes_eq]
  exact (ticking observer nodeId).imp fun later => UInt64.le_iff_toNat_le.mp later

theorem OneState.decides (one : OneState acts) (observer : String) :
    Decides NodeHealth.time (acts.map GossipAct.replicas) observer := by
  intro nodeId a noted b noted' tie
  rw [← notes_eq] at noted noted'
  have ticks : a.tick = b.tick := UInt64.toNat_inj.mp tie
  refine eq_of_rank ((mem_notes.mp noted).2.trans (mem_notes.mp noted').2.symm) ?_
  rw [NodeHealth.rank, NodeHealth.rank, ticks, one observer nodeId a noted b noted' ticks]

theorem reached (ran : Runs.run GossipNetwork.act .start acts = some n) :
    Filed n ∧ Run NodeHealth.time .init (acts.map GossipAct.replicas) n.replicas := by
  have found := run_replicas start_replicas.1 ran
  rw [start_replicas.2] at found
  exact found

theorem slot_noted (ran : Runs.run GossipNetwork.act .start acts = some n) {node observer nodeId : String}
    {e : NodeHealth} (held : (n.nodes node).slot observer nodeId = some e) : e ∈ notes acts observer nodeId := by
  rw [notes_eq]
  exact (reached ran).2.authentic.copies node observer nodeId e held

/-- Node a notes a service twice; its snapshot reaches node c through node b. -/
def sampleNotes : List GossipAct := [.observe "node-a" "svc" .healthy 3, .observe "node-a" "svc" .dead 7]

def sampleRelay : List GossipAct :=
  [.send "node-a" "node-a", .deliver "node-b" "node-a" [⟨"svc", .dead, 7⟩], .send "node-b" "node-a",
    .deliver "node-c" "node-a" [⟨"svc", .dead, 7⟩], .deliver "node-b" "node-a" [⟨"svc", .dead, 7⟩]]

theorem relay_runs : ∃ m last, Runs.run GossipNetwork.act .start sampleNotes = some m ∧
    Runs.run GossipNetwork.act m sampleRelay = some last ∧
    (last.nodes "node-c").consensusView "svc" = some ⟨"svc", .dead, 7⟩ ∧
    (m.nodes "node-a").consensusView "svc" = some ⟨"svc", .dead, 7⟩ ∧
    (m.nodes "node-a").snapshot "node-a" = [⟨"svc", .dead, 7⟩] := by
  have runs : ((Runs.run GossipNetwork.act .start sampleNotes).bind fun m =>
      (Runs.run GossipNetwork.act m sampleRelay).map fun last => ((last.nodes "node-c").consensusView "svc",
        (m.nodes "node-a").consensusView "svc", (m.nodes "node-a").snapshot "node-a")) =
      some (some ⟨"svc", .dead, 7⟩, some ⟨"svc", .dead, 7⟩, [⟨"svc", .dead, 7⟩]) := by decide
  obtain ⟨m, begun, rest⟩ := Option.bind_eq_some_iff.mp runs
  obtain ⟨last, rest, same⟩ := Option.map_eq_some_iff.mp rest
  obtain ⟨view, same⟩ := Prod.mk.inj same
  obtain ⟨own, snapshot⟩ := Prod.mk.inj same
  exact ⟨m, last, begun, rest, view, own, snapshot⟩

theorem sampleNotes_eq (observer nodeId : String) : notes sampleNotes observer nodeId =
    if observer = "node-a" ∧ nodeId = "svc" then [⟨"svc", .healthy, 3⟩, ⟨"svc", .dead, 7⟩] else [] := by
  by_cases own : observer = "node-a" ∧ nodeId = "svc"
  · simp [notes, sampleNotes, own]
  · simp [notes, sampleNotes, own]

theorem sample_ticking : Ticking sampleNotes ∧ OneState sampleNotes := by
  constructor
  · intro observer nodeId
    rw [sampleNotes_eq]
    split_ifs
    · decide
    · exact List.Pairwise.nil
  · intro observer nodeId
    rw [sampleNotes_eq]
    split_ifs
    · decide
    · intro a member
      cases member

/-- Whatever a node holds or concludes, on whatever way it came, was noted by its observer. -/
theorem no_health_invented (ran : Runs.run GossipNetwork.act .start acts = some n) (node nodeId : String)
    (e : NodeHealth) :
    (∀ observer, (n.nodes node).slot observer nodeId = some e →
      .observe observer nodeId e.status e.tick ∈ acts ∧ e.nodeId = nodeId) ∧
    ((n.nodes node).consensusView nodeId = some e →
      ∃ observer, .observe observer nodeId e.status e.tick ∈ acts ∧ e.nodeId = nodeId) := by
  refine ⟨fun observer held => mem_notes.mp (slot_noted ran held), fun view => ?_⟩
  obtain ⟨observer, held⟩ := (consensusView_top view).1
  exact ⟨observer, mem_notes.mp (slot_noted ran held)⟩

theorem no_health_invented_relayed : ∃ last,
    Runs.run GossipNetwork.act .start (sampleNotes ++ sampleRelay) = some last ∧
    (last.nodes "node-c").consensusView "svc" = some ⟨"svc", .dead, 7⟩ ∧
    ∃ observer, .observe observer "svc" .dead 7 ∈ sampleNotes ++ sampleRelay ∧ "svc" = "svc" := by
  obtain ⟨m, last, begun, rest, view, -⟩ := relay_runs
  cases begun
  have ran : Runs.run GossipNetwork.act .start (sampleNotes ++ sampleRelay) = some last := rest
  exact ⟨last, ran, view, (no_health_invented ran "node-c" "svc" ⟨"svc", .dead, 7⟩).2 view⟩

/-- Under clocks that do not fall no node is ahead of an observer and none falls back. -/
theorem health_moves_forward (begun : Runs.run GossipNetwork.act .start front = some m)
    (rest : Runs.run GossipNetwork.act m back = some last) (ticking : Ticking (front ++ back))
    (node nodeId : String) (e : NodeHealth) :
    (∀ observer, (m.nodes node).slot observer nodeId = some e →
      (∃ own ∈ (m.nodes observer).slot observer nodeId, e.tick ≤ own.tick) ∧
      ∃ later ∈ (last.nodes node).slot observer nodeId, e.tick ≤ later.tick) ∧
    ((m.nodes node).consensusView nodeId = some e →
      ∃ later ∈ (last.nodes node).consensusView nodeId, e.tick ≤ later.tick) := by
  obtain ⟨filed, start⟩ := reached begun
  obtain ⟨-, more⟩ := run_replicas filed rest
  have clocked (observer : String) : Clocked NodeHealth.time
      (front.map GossipAct.replicas ++ back.map GossipAct.replicas) observer := by
    rw [← List.map_append]
    exact ticking.clocked observer
  have forward (observer : String) {e : NodeHealth} (held : (m.nodes node).slot observer nodeId = some e) :
      ∃ later ∈ (last.nodes node).slot observer nodeId, e.tick ≤ later.tick := by
    obtain ⟨later, found, above⟩ := start.forward more (clocked observer) held
    exact ⟨later, found, UInt64.le_iff_toNat_le.mpr above⟩
  refine ⟨fun observer held => ⟨?_, forward observer held⟩, fun view => ?_⟩
  · obtain ⟨own, found, above⟩ := start.behind (clocked observer).earlier held
    exact ⟨own, found, UInt64.le_iff_toNat_le.mpr above⟩
  · obtain ⟨observer, held⟩ := (consensusView_top view).1
    obtain ⟨later, found, above⟩ := forward observer held
    obtain ⟨top, found', above'⟩ := consensusView_of_slot found
    exact ⟨top, found', UInt64.le_trans above (tick_le_of_rank above')⟩

theorem health_moves_forward_relayed : ∃ m last, Runs.run GossipNetwork.act .start sampleNotes = some m ∧
    Runs.run GossipNetwork.act m sampleRelay = some last ∧
    ∃ later ∈ (last.nodes "node-a").consensusView "svc", 7 ≤ later.tick := by
  obtain ⟨m, last, begun, rest, -, view, -⟩ := relay_runs
  have same (observer nodeId : String) :
      notes (sampleNotes ++ sampleRelay) observer nodeId = notes sampleNotes observer nodeId := by
    rw [notes, List.filterMap_append, notes]
    exact List.append_nil _
  have ticking : Ticking (sampleNotes ++ sampleRelay) := by
    intro observer nodeId
    rw [same]
    exact sample_ticking.1 observer nodeId
  exact ⟨m, last, begun, rest, (health_moves_forward begun rest ticking "node-a" "svc" ⟨"svc", .dead, 7⟩).2 view⟩

/-- The node has got the last snapshot of every other observer that noted anything. -/
def Informed (m : GossipNetwork) (front back : List GossipAct) (node : String) : Prop :=
  ∀ observer, observer ≠ node → (∃ about status tick, .observe observer about status tick ∈ front) →
    .deliver node observer ((m.nodes observer).snapshot observer) ∈ back

theorem slot_settled (begun : Runs.run GossipNetwork.act .start front = some m)
    (rest : Runs.run GossipNetwork.act m back = some last) (ticking : Ticking front) (one : OneState front)
    (quiet : ∀ node about status tick, .observe node about status tick ∉ back) {node : String}
    (informed : Informed m front back node) (observer nodeId : String) :
    (last.nodes node).slot observer nodeId = (notes front observer nodeId).getLast? := by
  obtain ⟨filed, start⟩ := reached begun
  obtain ⟨-, more⟩ := run_replicas filed rest
  have silent (k : String) (e : NodeHealth) : .write observer k e ∉ back.map GossipAct.replicas := by
    intro written
    obtain ⟨a, member, same⟩ := List.mem_map.mp written
    cases a with
    | observe node about status tick => exact quiet node about status tick member
    | send | deliver => cases same
  have nothing (k : String) : writes (back.map GossipAct.replicas) observer k = [] := writes_quiet silent k
  have clocked := ticking.clocked observer
  rw [notes_eq]
  by_cases own : observer = node
  · subst own
    have whole := (start.append more).own (w := observer) (fun k => ?_) nodeId
    · rw [writes_append, nothing, List.append_nil] at whole
      exact whole
    · rw [writes_append, nothing, List.append_nil]
      exact clocked k
  by_cases noted : ∃ about status tick, .observe observer about status tick ∈ front
  · have message := List.mem_map_of_mem (f := GossipAct.replicas) (informed observer own noted)
    rw [GossipAct.replicas, (snapshot_told (filed.about observer observer)).2] at message
    rw [← start.own clocked nodeId]
    exact congrFun (start.agrees more silent clocked (one.decides observer) message) nodeId
  · have none_noted : writes (front.map GossipAct.replicas) observer nodeId = [] := by
      rw [← notes_eq, List.eq_nil_iff_forall_not_mem]
      intro e member
      exact noted ⟨nodeId, e.status, e.tick, (mem_notes.mp member).1⟩
    rw [none_noted, List.getLast?_nil, Option.eq_none_iff_forall_ne_some]
    intro e held
    have member := (start.append more).authentic.copies node observer nodeId e held
    rw [writes_append, nothing, none_noted] at member
    cases member

/-- The views of all informed nodes are the top of the last notes, in whatever order, however often and through
whatever nodes the snapshots came. -/
theorem informed_views_agree (begun : Runs.run GossipNetwork.act .start front = some m)
    (rest : Runs.run GossipNetwork.act m back = some last) (ticking : Ticking front) (one : OneState front)
    (quiet : ∀ node about status tick, .observe node about status tick ∉ back) {node : String}
    (informed : Informed m front back node) (nodeId : String) :
    (∀ e, (last.nodes node).consensusView nodeId = some e ↔
      (∃ observer, e ∈ (notes front observer nodeId).getLast?) ∧
        ∀ observer, ∀ other ∈ (notes front observer nodeId).getLast?, other.rank ≤ e.rank) ∧
    ∀ node', Informed m front back node' →
      (last.nodes node').consensusView nodeId = (last.nodes node).consensusView nodeId := by
  have top {node : String} (informed : Informed m front back node) (e : NodeHealth) :
      (last.nodes node).consensusView nodeId = some e ↔
        (∃ observer, e ∈ (notes front observer nodeId).getLast?) ∧
          ∀ observer, ∀ other ∈ (notes front observer nodeId).getLast?, other.rank ≤ e.rank := by
    have slots (observer : String) := slot_settled begun rest ticking one quiet informed observer nodeId
    simp only [← slots, Option.mem_def]
    refine ⟨fun view => consensusView_top view, ?_⟩
    rintro ⟨⟨observer, held⟩, above⟩
    obtain ⟨best, view, reaches⟩ := consensusView_of_slot held
    obtain ⟨other, held'⟩ := (consensusView_top view).1
    have about (o : String) {r : NodeHealth} (kept : (last.nodes node).slot o nodeId = some r) :
        r.nodeId = nodeId := by
      rw [slots] at kept
      exact (mem_notes.mp (List.mem_of_getLast? kept)).2
    rw [view, eq_of_rank ((about other held').trans (about observer held).symm)
      (le_antisymm (above other best held') reaches)]
  exact ⟨top informed, fun node' informed' => Option.ext fun e => (top informed' e).trans (top informed e).symm⟩

theorem informed_views_agree_relayed : ∃ m last, Runs.run GossipNetwork.act .start sampleNotes = some m ∧
    Runs.run GossipNetwork.act m sampleRelay = some last ∧
    (last.nodes "node-b").consensusView "svc" = (last.nodes "node-c").consensusView "svc" := by
  obtain ⟨m, last, begun, rest, -, -, snapshot⟩ := relay_runs
  have informed (node : String) (told : .deliver node "node-a" [⟨"svc", .dead, 7⟩] ∈ sampleRelay) :
      Informed m sampleNotes sampleRelay node := by
    rintro observer - ⟨about, status, tick, member⟩
    have own : observer = "node-a" := by
      simp only [sampleNotes, List.mem_cons, List.not_mem_nil, or_false, GossipAct.observe.injEq] at member
      rcases member with same | same
      · exact same.1
      · exact same.1
    rw [own, snapshot]
    exact told
  exact ⟨m, last, begun, rest,
    (informed_views_agree begun rest sample_ticking.1 sample_ticking.2 (by simp [sampleRelay])
    (informed "node-c" (by simp [sampleRelay])) "svc").2 "node-b" (informed "node-b" (by simp [sampleRelay]))⟩

end
end KaiOs.Health
