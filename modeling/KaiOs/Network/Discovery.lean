import KaiOs.Health.Watchdog
import Mathlib.Data.List.Induction

/-! `network/src/discovery.rs` and the peer store of `network/src/peer.rs`: what is known of other
peers, and when they are forgotten. -/
namespace KaiOs.Network
open Health (saturatingSub)

structure PeerInfo where
  peerId : String
  addr : String
  caps : List String
  lastSeenTick : UInt64
  deriving DecidableEq

/-- The hash map of the source, each entry under its own id. -/
structure PeerStore where
  peers : BTreeMap String PeerInfo
  keyed : ∀ (id : String) (p : PeerInfo), peers[id]? = some p → p.peerId = id

namespace PeerStore

def new : PeerStore where
  peers := ∅
  keyed id p held := by
    rw [Std.ExtTreeMap.getElem?_empty] at held
    cases held

def upsert (s : PeerStore) (info : PeerInfo) : PeerStore where
  peers := s.peers.insert info.peerId info
  keyed id p held := by
    rw [lookup_insert] at held
    split_ifs at held with same
    · cases held
      exact same
    · exact s.keyed id p held

def get (s : PeerStore) (peerId : String) : Option PeerInfo := s.peers[peerId]?

def remove (s : PeerStore) (peerId : String) : PeerStore where
  peers := s.peers.erase peerId
  keyed id p held := by
    rw [lookup_erase] at held
    split_ifs at held
    exact s.keyed id p held

/-- The ids of what has not been seen for too long, in the order of the map, and the store without them. -/
def evictStale (s : PeerStore) (nowTick maxAge : UInt64) : List String × PeerStore :=
  let stale := ((s.peers.toList.map Prod.snd).filter fun p =>
    saturatingSub nowTick p.lastSeenTick > maxAge).map (·.peerId)
  (stale, stale.foldl remove s)

theorem get_new (id : String) : new.get id = none := Std.ExtTreeMap.getElem?_empty

theorem get_upsert (s : PeerStore) (info : PeerInfo) (id : String) :
    (s.upsert info).get id = if info.peerId = id then some info else s.get id := lookup_insert _ _ _ _

theorem get_remove (s : PeerStore) (peerId id : String) :
    (s.remove peerId).get id = if peerId = id then none else s.get id := lookup_erase _ _ _

theorem get_removeAll (s : PeerStore) (ids : List String) (id : String) :
    (ids.foldl remove s).get id = if id ∈ ids then none else s.get id := by
  induction ids generalizing s with
  | nil => rw [List.foldl_nil, if_neg List.not_mem_nil]
  | cons first ids ih =>
      rw [List.foldl_cons, ih, get_remove]
      by_cases here : first = id
      · rw [if_pos here, if_pos (List.mem_cons.mpr (.inl here.symm)), ite_self]
      · simp [here, Ne.symm here]

theorem mem_stale {s : PeerStore} {nowTick maxAge : UInt64} {id : String} :
    id ∈ (s.evictStale nowTick maxAge).1 ↔
      ∃ p, s.get id = some p ∧ saturatingSub nowTick p.lastSeenTick > maxAge := by
  rw [evictStale, List.mem_map]
  constructor
  · rintro ⟨p, member, rfl⟩
    obtain ⟨listed, old⟩ := List.mem_filter.mp member
    obtain ⟨⟨id, _⟩, held, rfl⟩ := List.mem_map.mp listed
    rw [Std.ExtTreeMap.mem_toList_iff_getElem?_eq_some] at held
    have own := s.keyed id _ held
    exact ⟨_, by rw [own]; exact held, of_decide_eq_true old⟩
  · rintro ⟨p, held, old⟩
    refine ⟨p, List.mem_filter.mpr ⟨List.mem_map.mpr ⟨(id, p), ?_, rfl⟩, decide_eq_true old⟩, s.keyed id p held⟩
    exact Std.ExtTreeMap.mem_toList_iff_getElem?_eq_some.mpr held

theorem get_evictStale (s : PeerStore) (nowTick maxAge : UInt64) (id : String) (p : PeerInfo) :
    (s.evictStale nowTick maxAge).2.get id = some p ↔
      s.get id = some p ∧ saturatingSub nowTick p.lastSeenTick ≤ maxAge := by
  have left : (s.evictStale nowTick maxAge).2.get id =
      if id ∈ (s.evictStale nowTick maxAge).1 then none else s.get id := get_removeAll _ _ _
  rw [left]
  split_ifs with old
  · obtain ⟨q, held, late⟩ := mem_stale.mp old
    refine iff_of_false (by simp) ?_
    rintro ⟨same, recent⟩
    rw [held, Option.some.injEq] at same
    rw [same] at late
    exact UInt64.not_le.mpr late recent
  · refine (and_iff_left_of_imp fun held => ?_).symm
    exact UInt64.not_lt.mp fun late => old (mem_stale.mpr ⟨p, held, late⟩)

end PeerStore

inductive DiscoveryMessage where
  | announce (info : PeerInfo)
  | ping (fromPeerId : String) (tick : UInt64)
  | pong (fromPeerId : String) (tick : UInt64)
  | peerList (fromPeerId : String) (peers : List PeerInfo)
  deriving DecidableEq

structure Discovery where
  selfPeerId : String
  store : PeerStore

namespace Discovery
open PeerStore

def new (selfPeerId : String) : Discovery := ⟨selfPeerId, .new⟩

/-- Both arms that store a peer give it the time of the call. -/
def see (store : PeerStore) (nowTick : UInt64) (info : PeerInfo) : PeerStore :=
  store.upsert { info with lastSeenTick := nowTick }

def handle (d : Discovery) (msg : DiscoveryMessage) (nowTick : UInt64) : Option DiscoveryMessage × Discovery :=
  match msg with
  | .announce info => (none, { d with store := see d.store nowTick info })
  | .ping _ tick => (some (.pong d.selfPeerId tick), d)
  | .pong _ _ => (none, d)
  | .peerList _ peers => (none, { d with store := peers.foldl (see · nowTick) d.store })

/-- Messages with the times at which they are handled. -/
def after (selfPeerId : String) (calls : List (DiscoveryMessage × UInt64)) : Discovery :=
  calls.foldl (fun d call => (d.handle call.1 call.2).2) (new selfPeerId)

end Discovery

namespace DiscoveryMessage

/-- The peers that a message tells of. -/
def named : DiscoveryMessage → List String
  | .announce info => [info.peerId]
  | .ping _ _ | .pong _ _ => []
  | .peerList _ peers => peers.map (·.peerId)

/-- The peer that a message comes from. -/
def sender : DiscoveryMessage → String
  | .announce info => info.peerId
  | .ping fromPeerId _ | .pong fromPeerId _ | .peerList fromPeerId _ => fromPeerId

end DiscoveryMessage

namespace Discovery
open PeerStore DiscoveryMessage

theorem get_see (store : PeerStore) (nowTick : UInt64) (info : PeerInfo) (id : String) :
    (see store nowTick info).get id =
      if info.peerId = id then some { info with lastSeenTick := nowTick } else store.get id := get_upsert _ _ _

theorem get_handle (d : Discovery) (msg : DiscoveryMessage) (nowTick : UInt64) (id : String) :
    if id ∈ msg.named then ∃ p, (d.handle msg nowTick).2.store.get id = some p ∧ p.lastSeenTick = nowTick
    else (d.handle msg nowTick).2.store.get id = d.store.get id := by
  have list (peers : List PeerInfo) : if id ∈ peers.map (·.peerId) then
      ∃ p, (peers.foldl (see · nowTick) d.store).get id = some p ∧ p.lastSeenTick = nowTick
      else (peers.foldl (see · nowTick) d.store).get id = d.store.get id := by
    induction peers using List.reverseRecOn with
    | nil => exact (if_neg List.not_mem_nil).mpr rfl
    | append_singleton peers last ih =>
        rw [List.map_append, List.foldl_concat, get_see]
        by_cases here : last.peerId = id
        · rw [if_pos here, if_pos (by simp [here])]
          exact ⟨_, rfl, rfl⟩
        · simpa [here, Ne.symm here] using ih
  cases msg with
  | announce info => exact list [info]
  | ping fromPeerId tick => exact rfl
  | pong fromPeerId tick => exact rfl
  | peerList fromPeerId peers => exact list peers

/-- With times that do not go back, a peer is stored exactly if it was named, and was last seen when it
was last named. -/
structure Seen (calls : List (DiscoveryMessage × UInt64)) (id : String) (held : Option PeerInfo) : Prop where
  named : ∀ p, held = some p → ∃ msg, (msg, p.lastSeenTick) ∈ calls ∧ id ∈ msg.named
  latest : ∀ call ∈ calls, id ∈ call.1.named → ∃ p, held = some p ∧ call.2 ≤ p.lastSeenTick

theorem seen_after (selfPeerId : String) {calls : List (DiscoveryMessage × UInt64)}
    (forward : calls.Pairwise fun a b => a.2 ≤ b.2) (id : String) :
    Seen calls id ((after selfPeerId calls).store.get id) := by
  induction calls using List.reverseRecOn with
  | nil =>
      refine ⟨fun p held => ?_, by simp⟩
      cases (get_new id).symm.trans held
  | append_singleton calls last ih =>
      obtain ⟨before, -, behind⟩ := List.pairwise_append.mp forward
      obtain ⟨named, latest⟩ := ih before
      have step := get_handle (after selfPeerId calls) last.1 last.2 id
      rw [after, List.foldl_concat, ← after]
      split_ifs at step with here
      · obtain ⟨p, found, now⟩ := step
        rw [found]
        refine ⟨?_, fun call member _ => ⟨p, rfl, ?_⟩⟩
        · rintro q ⟨⟩
          exact ⟨last.1, by rw [now]; simp, here⟩
        · rw [now]
          obtain early | late := List.mem_append.mp member
          · exact behind call early last (.head _)
          · rw [List.mem_singleton.mp late]
            exact UInt64.le_refl _
      · rw [step]
        refine ⟨fun p held => ?_, fun call member about => ?_⟩
        · obtain ⟨msg, inside, about⟩ := named p held
          exact ⟨msg, List.mem_append_left _ inside, about⟩
        · obtain early | late := List.mem_append.mp member
          · exact latest call early about
          · rw [List.mem_singleton.mp late] at about
            exact absurd about here

/-- A peer stays exactly if an announcement of its own or somebody's list has named it recently. -/
theorem evict_follows_naming (selfPeerId : String) {calls : List (DiscoveryMessage × UInt64)}
    (forward : calls.Pairwise fun a b => a.2 ≤ b.2) (nowTick maxAge : UInt64) (id : String) :
    (∃ p, ((after selfPeerId calls).store.evictStale nowTick maxAge).2.get id = some p) ↔
      ∃ call ∈ calls, id ∈ call.1.named ∧ saturatingSub nowTick call.2 ≤ maxAge := by
  obtain ⟨named, latest⟩ := seen_after selfPeerId forward id
  constructor
  · rintro ⟨p, kept⟩
    obtain ⟨held, recent⟩ := (get_evictStale _ _ _ _ _).mp kept
    obtain ⟨msg, member, about⟩ := named p held
    exact ⟨(msg, p.lastSeenTick), member, about, recent⟩
  · rintro ⟨call, member, about, recent⟩
    obtain ⟨p, held, later⟩ := latest call member about
    refine ⟨p, (get_evictStale _ _ _ _ _).mpr ⟨held, ?_⟩⟩
    rw [UInt64.le_iff_toNat_le] at later recent ⊢
    rw [Health.toNat_saturatingSub] at recent ⊢
    omega

theorem evict_keeps_named :
    ∃ p, ((after "self" [(.announce ⟨"peer-1", "peer-1.atc:5000", [], 0⟩, 5),
      (.peerList "peer-1" [⟨"peer-3", "peer-3.atc:5000", [], 0⟩], 7)]).store.evictStale 15 14).2.get "peer-3" =
        some p :=
  (evict_follows_naming "self" (by decide) 15 14 "peer-3").mpr
    ⟨(.peerList "peer-1" [⟨"peer-3", "peer-3.atc:5000", [], 0⟩], 7), by decide, by decide, by decide⟩

/-- One peer pings, another one is only told of. -/
def overheard : List (DiscoveryMessage × UInt64) :=
  [(.announce ⟨"peer-1", "peer-1.atc:5000", [], 0⟩, 0), (.ping "peer-1" 12, 12),
    (.peerList "peer-2" [⟨"peer-3", "peer-3.atc:5000", [], 0⟩], 12)]

/-- The one is forgotten three ticks after its ping, the other one is kept. -/
theorem eviction_follows_hearsay :
    overheard.Pairwise (fun a b => a.2 ≤ b.2) ∧
    (((after "self" overheard).store.get "peer-1").isSome ∧
      (∃ call ∈ overheard, call.1.sender = "peer-1" ∧ saturatingSub 15 call.2 ≤ 14) ∧
      ((after "self" overheard).store.evictStale 15 14).2.get "peer-1" = none) ∧
    (∀ call ∈ overheard, call.1.sender ≠ "peer-3") ∧
    (((after "self" overheard).store.evictStale 15 14).2.get "peer-3").isSome := by
  decide +kernel

end Discovery
end KaiOs.Network
