import KaiOs.Lib.Latest
import KaiOs.State.Merkle
import Mathlib.Data.Prod.Lex

/-! `health/src/gossip.rs`: what the nodes report about each other's health. Every observer has a
slot for every node; a newer report replaces an older one, on a tie the entry that is there stays. -/
namespace KaiOs.Health
open List

inductive HealthStatus where
  | healthy
  | stale
  | dead
  deriving DecidableEq

def severity : HealthStatus → UInt8
  | .healthy => 0
  | .stale => 1
  | .dead => 2

structure NodeHealth where
  nodeId : String
  status : HealthStatus
  tick : UInt64
  deriving DecidableEq

structure HealthGossip where
  selfId : String
  observations : BTreeMap String (BTreeMap String NodeHealth)

/-- The loop of `merge` over the received entries, with the number of those adopted. -/
def mergeInto (target : BTreeMap String NodeHealth) : List NodeHealth → BTreeMap String NodeHealth × ℕ
  | [] => (target, 0)
  | r :: rs =>
      let adopt :=
        let (merged, adopted) := mergeInto (target.insert r.nodeId r) rs
        (merged, adopted + 1)
      match target[r.nodeId]? with
      | some known => if known.tick ≥ r.tick then mergeInto target rs else adopt
      | none => adopt

namespace HealthGossip

def new (selfId : String) : HealthGossip := ⟨selfId, ∅⟩

def observe (g : HealthGossip) (nodeId : String) (status : HealthStatus) (tick : UInt64) : HealthGossip :=
  let own := (g.observations[g.selfId]?).getD ∅
  { g with observations := g.observations.insert g.selfId (own.insert nodeId ⟨nodeId, status, tick⟩) }

def merge (g : HealthGossip) (observer : String) (remote : List NodeHealth) : ℕ × HealthGossip :=
  let (target, adopted) := mergeInto ((g.observations[observer]?).getD ∅) remote
  (adopted, { g with observations := g.observations.insert observer target })

/-- The values of the observer's map, in the order of its keys. -/
def snapshot (g : HealthGossip) (observer : String) : List NodeHealth :=
  ((g.observations[observer]?).map fun observed => observed.toList.map Prod.snd).getD []

/-- The loop body of `consensus_view` on an entry for the node. -/
def worseOf (best : Option NodeHealth) (entry : NodeHealth) : NodeHealth :=
  match best with
  | none => entry
  | some b =>
      if entry.tick > b.tick || entry.tick = b.tick && severity entry.status > severity b.status then entry else b

def consensusView (g : HealthGossip) (nodeId : String) : Option NodeHealth :=
  g.observations.toList.foldl (fun best (_, observed) =>
    match observed[nodeId]? with
    | some entry => some (worseOf best entry)
    | none => best) none

/-- What is kept of an observer's reports about a node. -/
def slot (g : HealthGossip) (observer nodeId : String) : Option NodeHealth :=
  (g.observations[observer]?).bind (·[nodeId]?)

end HealthGossip

/-- Later ticks first, then the severer status. -/
def NodeHealth.rank (e : NodeHealth) : ℕ ×ₗ ℕ := toLex (e.tick.toNat, (severity e.status).toNat)

def NodeHealth.time (e : NodeHealth) : ℕ := e.tick.toNat

theorem severity_inj {a b : HealthStatus} (same : (severity a).toNat = (severity b).toNat) : a = b := by
  cases a <;> cases b <;> first | rfl | exact absurd same (by decide)

theorem eq_of_rank {a b : NodeHealth} (node : a.nodeId = b.nodeId) (same : a.rank = b.rank) : a = b := by
  obtain ⟨nodeId, status, tick⟩ := a
  obtain ⟨nodeId', status', tick'⟩ := b
  obtain ⟨ticks, severities⟩ := Prod.mk.inj (toLex_inj.mp same)
  cases node
  cases severity_inj severities
  cases UInt64.toNat_inj.mp ticks
  rfl

/-- Keeping the newer of two is a step towards the first entry with the latest tick. -/
theorem mergeInto_lookup (target : BTreeMap String NodeHealth) (rs : List NodeHealth) (nodeId : String) :
    (mergeInto target rs).1[nodeId]? = (rs.filter fun r => r.nodeId = nodeId).foldl
      (argAux fun b c => c.time < b.time) target[nodeId]? := by
  induction rs generalizing target with
  | nil => rfl
  | cons r rs ih =>
      rw [mergeInto, List.filter_cons]
      by_cases about : r.nodeId = nodeId
      · subst about
        rw [if_pos (decide_eq_true rfl), List.foldl_cons]
        cases held : target[r.nodeId]? with
        | none =>
            dsimp only
            rw [ih, lookup_insert, if_pos rfl]
            rfl
        | some known =>
            dsimp only
            by_cases newer : known.tick ≥ r.tick
            · have kept : ¬ known.time < r.time := Nat.not_lt.mpr (UInt64.le_iff_toNat_le.mp newer)
              rw [if_pos newer, ih, held]
              simp only [argAux, if_neg kept]
            · have taken : known.time < r.time := by
                rw [ge_iff_le, UInt64.not_le] at newer
                exact UInt64.lt_iff_toNat_lt.mp newer
              rw [if_neg newer]
              dsimp only
              rw [ih, lookup_insert, if_pos rfl]
              simp only [argAux, if_pos taken]
      · rw [if_neg (by simpa using about)]
        have adopt : (mergeInto (target.insert r.nodeId r) rs).1[nodeId]? = (mergeInto target rs).1[nodeId]? := by
          rw [ih, ih, lookup_insert, if_neg about]
        rw [← ih]
        split
        · split
          · rfl
          · exact adopt
        · exact adopt

theorem worseOf_eq (best : Option NodeHealth) (entry : NodeHealth) :
    some (HealthGossip.worseOf best entry) = argAux (fun b c => c.rank < b.rank) best entry := by
  cases best with
  | none => rfl
  | some b =>
      have ranks : b.rank < entry.rank ↔ (entry.tick > b.tick ∨
          entry.tick = b.tick ∧ severity entry.status > severity b.status) := by
        rw [NodeHealth.rank, NodeHealth.rank, Prod.Lex.toLex_lt_toLex, gt_iff_lt, gt_iff_lt,
          UInt64.lt_iff_toNat_lt, UInt8.lt_iff_toNat_lt, UInt64.toNat_inj.symm, eq_comm (a := entry.tick.toNat)]
      by_cases above : b.rank < entry.rank
      · simp [HealthGossip.worseOf, argAux, above, ranks.mp above]
      · have not := mt ranks.mpr above
        simp [HealthGossip.worseOf, argAux, above, not]

theorem consensusView_eq (g : HealthGossip) (nodeId : String) :
    g.consensusView nodeId =
      argmax NodeHealth.rank (g.observations.toList.filterMap fun (_, observed) => observed[nodeId]?) := by
  rw [HealthGossip.consensusView, argmax, List.foldl_filterMap]
  congr 1
  funext best (_, observed)
  dsimp only
  cases observed[nodeId]? with
  | none => rfl
  | some entry => exact worseOf_eq best entry

theorem mem_slots {g : HealthGossip} {nodeId : String} {e : NodeHealth} :
    e ∈ g.observations.toList.filterMap (fun (_, observed) => observed[nodeId]?) ↔
      ∃ observer, g.slot observer nodeId = some e := by
  rw [List.mem_filterMap]
  constructor
  · rintro ⟨⟨observer, observed⟩, member, found⟩
    rw [Std.ExtTreeMap.mem_toList_iff_getElem?_eq_some] at member
    exact ⟨observer, by rw [HealthGossip.slot, member]; exact found⟩
  · rintro ⟨observer, held⟩
    obtain ⟨observed, member, found⟩ := Option.bind_eq_some_iff.mp held
    exact ⟨(observer, observed), Std.ExtTreeMap.mem_toList_iff_getElem?_eq_some.mpr member, found⟩

theorem slot_observe (g : HealthGossip) (node : String) (status : HealthStatus) (tick : UInt64)
    (observer nodeId : String) : (g.observe node status tick).slot observer nodeId =
      if observer = g.selfId ∧ node = nodeId then some ⟨node, status, tick⟩ else g.slot observer nodeId := by
  rw [HealthGossip.slot, HealthGossip.slot, HealthGossip.observe]
  dsimp only
  rw [lookup_insert]
  by_cases own : g.selfId = observer
  · subst own
    rw [if_pos rfl, Option.bind_some, lookup_insert]
    by_cases about : node = nodeId
    · rw [if_pos about, if_pos ⟨rfl, about⟩]
    · rw [if_neg about, if_neg fun both => about both.2]
      cases g.observations[g.selfId]? with
      | none => exact Std.ExtTreeMap.getElem?_empty
      | some _ => rfl
  · rw [if_neg own, if_neg fun both => own both.1.symm]

theorem slot_merge (g : HealthGossip) (sender : String) (remote : List NodeHealth) (observer nodeId : String) :
    (g.merge sender remote).2.slot observer nodeId =
      if sender = observer then (remote.filter fun r => r.nodeId = nodeId).foldl
        (argAux fun b c => c.time < b.time) (g.slot observer nodeId) else g.slot observer nodeId := by
  rw [HealthGossip.slot, HealthGossip.merge]
  dsimp only
  rw [lookup_insert]
  by_cases same : sender = observer
  · subst same
    rw [if_pos rfl, if_pos rfl, Option.bind_some, mergeInto_lookup]
    congr 1
    rw [HealthGossip.slot]
    cases g.observations[sender]? with
    | none => exact Std.ExtTreeMap.getElem?_empty
    | some _ => rfl
  · rw [if_neg same, if_neg same, HealthGossip.slot]

end KaiOs.Health
