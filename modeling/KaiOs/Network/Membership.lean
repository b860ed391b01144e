import KaiOs.Lib.Runs
import KaiOs.Network.Discovery
import Mathlib.Logic.Function.Basic

/-! Nodes that find each other. Peers announce themselves, nodes pass on what they have stored and forget what they
have not heard of for too long; messages are delivered late, again or never. -/
namespace KaiOs.Network
open Runs
open Health (saturatingSub)

namespace PeerStore

/-- The entries of the hash map, sorted by their ids. -/
def all (s : PeerStore) : List PeerInfo :=
  (s.peers.toList.map Prod.snd).mergeSort fun a b => (compare a.peerId b.peerId).isLE

theorem mem_all {s : PeerStore} {p : PeerInfo} : p ∈ s.all ↔ s.get p.peerId = some p := by
  rw [all, List.mem_mergeSort, List.mem_map]
  constructor
  · rintro ⟨⟨id, q⟩, listed, rfl⟩
    rw [Std.ExtTreeMap.mem_toList_iff_getElem?_eq_some] at listed
    rw [get, s.keyed id q listed]
    exact listed
  · intro held
    exact ⟨(p.peerId, p), Std.ExtTreeMap.mem_toList_iff_getElem?_eq_some.mpr held, rfl⟩

end PeerStore

/-- What a message says of peers. -/
def DiscoveryMessage.infos : DiscoveryMessage → List PeerInfo
  | .announce info => [info]
  | .ping _ _ | .pong _ _ => []
  | .peerList _ peers => peers

/-- What is stored behind a message was stored before it, or the message has said it. -/
theorem Discovery.get_handle_cases {d : Discovery} {msg : DiscoveryMessage} {now : UInt64} {id : String}
    {p : PeerInfo} (held : (d.handle msg now).2.store.get id = some p) :
    d.store.get id = some p ∨ ∃ q ∈ msg.infos, p = { q with lastSeenTick := now } := by
  have list (peers : List PeerInfo) (held : (peers.foldl (see · now) d.store).get id = some p) :
      d.store.get id = some p ∨ ∃ q ∈ peers, p = { q with lastSeenTick := now } := by
    induction peers using List.reverseRecOn with
    | nil => exact .inl held
    | append_singleton peers last ih =>
        rw [List.foldl_concat, get_see] at held
        split_ifs at held with here
        · exact .inr ⟨last, List.mem_append_right _ (.head _), (Option.some.inj held).symm⟩
        · obtain old | ⟨q, member, same⟩ := ih held
          · exact .inl old
          · exact .inr ⟨q, List.mem_append_left _ member, same⟩
  cases msg with
  | announce info => exact list [info] held
  | ping | pong => exact .inl held
  | peerList fromPeerId peers => exact list peers held

def Discovery.peerList (d : Discovery) : List PeerInfo := d.store.all

theorem Discovery.mem_peerList {d : Discovery} {id : String} {p : PeerInfo} (held : d.store.get id = some p) :
    id ∈ d.peerList.map (·.peerId) := by
  have own := d.store.keyed id p held
  refine List.mem_map.mpr ⟨p, PeerStore.mem_all.mpr ?_, own⟩
  rw [own]
  exact held

/-- The nodes with the times of their last calls, what has been sent with its sender, and the numbers of the messages
that have reached a node with the times at which they did. -/
structure Neighbourhood (ι : Type*) where
  nodes : ι → Discovery
  clock : ι → UInt64
  sent : List (Option ι × DiscoveryMessage)
  heard : ι → List (ℕ × UInt64)

inductive NeighbourAct (ι : Type*) where
  /-- Anybody announces anything. -/
  | announce (info : PeerInfo)
  | ping (fromPeerId : String) (tick : UInt64)
  /-- A node sends its list of peers. -/
  | pass (node : ι)
  | deliver (node : ι) (n : ℕ) (now : UInt64)
  | evict (node : ι) (now maxAge : UInt64)

namespace Neighbourhood
variable {ι : Type*} [DecidableEq ι]

def start (ids : ι → String) : Neighbourhood ι := ⟨fun i => .new (ids i), fun _ => 0, [], fun _ => []⟩

def post (w : Neighbourhood ι) (sender : Option ι) (msg : DiscoveryMessage) : Neighbourhood ι :=
  { w with sent := w.sent ++ [(sender, msg)] }

/-- The node handles a message; its answer, if there is one, is sent. -/
def take (w : Neighbourhood ι) (i : ι) (n : ℕ) (now : UInt64) (msg : DiscoveryMessage) : Neighbourhood ι where
  nodes := Function.update w.nodes i ((w.nodes i).handle msg now).2
  clock := Function.update w.clock i now
  sent := w.sent ++ ((w.nodes i).handle msg now).1.toList.map (some i, ·)
  heard := Function.update w.heard i (w.heard i ++ [(n, now)])

def forget (w : Neighbourhood ι) (i : ι) (now maxAge : UInt64) : Neighbourhood ι :=
  { w with
    nodes := Function.update w.nodes i
      { w.nodes i with store := ((w.nodes i).store.evictStale now maxAge).2 }
    clock := Function.update w.clock i now }

/-- Only what was sent is delivered, and the time of a node does not go back. -/
def step (w : Neighbourhood ι) : NeighbourAct ι → Option (Neighbourhood ι)
  | .announce info => some (w.post none (.announce info))
  | .ping fromPeerId tick => some (w.post none (.ping fromPeerId tick))
  | .pass i => some (w.post (some i) (.peerList (w.nodes i).selfPeerId (w.nodes i).peerList))
  | .deliver i n now => if w.clock i ≤ now then w.sent[n]?.map fun message => w.take i n now message.2 else none
  | .evict i now maxAge => if w.clock i ≤ now then some (w.forget i now maxAge) else none

/-- A member of the group has sent a list as the `n`-th message, not before the first ones. -/
def Passed (w : Neighbourhood ι) (group : Set ι) (first n : ℕ) : Prop :=
  first ≤ n ∧ ∃ j ∈ group, ∃ self peers, w.sent[n]? = some (some j, .peerList self peers)

/-- A member of the group that forgets has heard a list of a member, sent after the first messages, recently. -/
def Refreshed (group : Set ι) (first : ℕ) (w : Neighbourhood ι) : NeighbourAct ι → Prop
  | .evict i now maxAge => i ∈ group →
      ∃ n t, (n, t) ∈ w.heard i ∧ w.Passed group first n ∧ saturatingSub now t ≤ maxAge
  | _ => True

/-- What has reached a node had been sent, and not after the last call. -/
def Timed (w : Neighbourhood ι) : Prop := ∀ i, ∀ h ∈ w.heard i, h.1 < w.sent.length ∧ h.2 ≤ w.clock i

/-- Every member knows the peer, at least since it last heard a list of a member, and all these lists name it. -/
structure Kept (group : Set ι) (first : ℕ) (id : String) (w : Neighbourhood ι) : Prop where
  held : ∀ i ∈ group, ∃ p, (w.nodes i).store.get id = some p ∧
    ∀ h ∈ w.heard i, w.Passed group first h.1 → h.2 ≤ p.lastSeenTick
  named : ∀ n sender msg, w.Passed group first n → w.sent[n]? = some (sender, msg) → id ∈ msg.named

section
variable {group : Set ι} {first n : ℕ} {id : String} {w w' : Neighbourhood ι} {i : ι} {now maxAge : UInt64}
  {sender : Option ι} {msg : DiscoveryMessage} {more : List (Option ι × DiscoveryMessage)}

theorem step_deliver : w.step (.deliver i n now) = some w' ↔ w.clock i ≤ now ∧
    ∃ sender msg, w.sent[n]? = some (sender, msg) ∧ w.take i n now msg = w' := by
  rw [step, Option.ite_none_right_eq_some, Option.map_eq_some_iff]
  exact and_congr_right fun _ => Prod.exists

theorem delivered (time : w.clock i ≤ now) (found : w.sent[n]? = some (sender, msg)) :
    w.step (.deliver i n now) = some (w.take i n now msg) := step_deliver.mpr ⟨time, _, _, found, rfl⟩

theorem step_evict : w.step (.evict i now maxAge) = some w' ↔ w.clock i ≤ now ∧ w.forget i now maxAge = w' := by
  rw [step, Option.ite_none_right_eq_some, Option.some.injEq]

theorem take_self : (w.take i n now msg).nodes i = ((w.nodes i).handle msg now).2 ∧
    (w.take i n now msg).heard i = w.heard i ++ [(n, now)] ∧ (w.take i n now msg).clock i = now :=
  ⟨Function.update_self _ _ _, Function.update_self _ _ _, Function.update_self _ _ _⟩

theorem take_of_ne {j : ι} (other : j ≠ i) : (w.take i n now msg).nodes j = w.nodes j ∧
    (w.take i n now msg).heard j = w.heard j ∧ (w.take i n now msg).clock j = w.clock j :=
  ⟨Function.update_of_ne other _ _, Function.update_of_ne other _ _, Function.update_of_ne other _ _⟩

theorem forget_self : (w.forget i now maxAge).nodes i =
    { w.nodes i with store := ((w.nodes i).store.evictStale now maxAge).2 } := Function.update_self _ _ _

theorem forget_of_ne {j : ι} (other : j ≠ i) : (w.forget i now maxAge).nodes j = w.nodes j :=
  Function.update_of_ne other _ _

omit [DecidableEq ι] in
theorem passed_iff (grown : w'.sent = w.sent ++ more) (range : n < w.sent.length) :
    w'.Passed group first n ↔ w.Passed group first n := by
  rw [Passed, Passed, grown, List.getElem?_append_left range]

theorem Timed.take (timed : w.Timed) (time : w.clock i ≤ now) (found : w.sent[n]? = some (sender, msg)) :
    (w.take i n now msg).Timed := by
  intro j h member
  have grown : w.sent.length ≤ (w.take i n now msg).sent.length := by
    rw [Neighbourhood.take, List.length_append]
    omega
  by_cases here : j = i
  · subst here
    obtain ⟨-, heard, clock⟩ : _ ∧ (w.take j n now msg).heard j = _ ∧ _ := take_self
    rw [heard] at member
    rw [clock]
    obtain old | new := List.mem_append.mp member
    · exact ⟨(timed j h old).1.trans_le grown, UInt64.le_trans (timed j h old).2 time⟩
    · rw [List.mem_singleton.mp new]
      exact ⟨(List.getElem?_eq_some_iff.mp found).1.trans_le grown, UInt64.le_refl _⟩
  · obtain ⟨-, heard, clock⟩ : _ ∧ (w.take i n now msg).heard j = _ ∧ _ := take_of_ne here
    rw [heard] at member
    rw [clock]
    exact ⟨(timed j h member).1.trans_le grown, (timed j h member).2⟩

theorem Timed.step {a : NeighbourAct ι} (timed : w.Timed) (taken : w.step a = some w') : w'.Timed := by
  have post (sender : Option ι) (msg : DiscoveryMessage) : (w.post sender msg).Timed := by
    intro i h member
    have range := (timed i h member).1
    exact ⟨by rw [Neighbourhood.post, List.length_append]; omega, (timed i h member).2⟩
  cases a with
  | announce info =>
      cases taken
      exact post _ _
  | ping fromPeerId tick =>
      cases taken
      exact post _ _
  | pass i =>
      cases taken
      exact post _ _
  | deliver i n now =>
      obtain ⟨time, sender, msg, found, rfl⟩ := step_deliver.mp taken
      exact timed.take time found
  | evict i now maxAge =>
      obtain ⟨time, rfl⟩ := step_evict.mp taken
      intro j h member
      refine ⟨(timed j h member).1, UInt64.le_trans (timed j h member).2 ?_⟩
      have clock : (w.forget i now maxAge).clock = Function.update w.clock i now := rfl
      rw [clock, Function.update_apply]
      split_ifs with here
      · rw [here]
        exact time
      · exact UInt64.le_refl _

omit [DecidableEq ι] in
/-- Further messages leave it so if the lists of members among them name the peer. -/
theorem Kept.named_grown (kept : Kept group first id w) (grown : w'.sent = w.sent ++ more)
    (next : ∀ j ∈ group, ∀ self peers, (some j, .peerList self peers) ∈ more → id ∈ peers.map (·.peerId))
    (n : ℕ) (sender : Option ι) (msg : DiscoveryMessage) (passed : w'.Passed group first n)
    (found : w'.sent[n]? = some (sender, msg)) : id ∈ msg.named := by
  by_cases range : n < w.sent.length
  · rw [passed_iff grown range] at passed
    rw [grown, List.getElem?_append_left range] at found
    exact kept.named n sender msg passed found
  · obtain ⟨-, j, member, self, peers, list⟩ := passed
    cases found.symm.trans list
    rw [grown, List.getElem?_append_right (Nat.le_of_not_lt range)] at found
    exact next j member self peers (List.mem_of_getElem? found)

omit [DecidableEq ι] in
theorem Kept.post (kept : Kept group first id w) (timed : w.Timed)
    (next : ∀ j ∈ group, ∀ self peers, (some j, .peerList self peers) = (sender, msg) →
      id ∈ peers.map (·.peerId)) : Kept group first id (w.post sender msg) where
  held i member := by
    obtain ⟨p, held, seen⟩ := kept.held i member
    refine ⟨p, held, fun h heard passed => seen h heard ?_⟩
    exact (passed_iff rfl (timed i h heard).1).mp passed
  named := kept.named_grown rfl fun j member self peers last => next j member self peers (List.mem_singleton.mp last)

theorem reply_pong {d : Discovery} {reply : DiscoveryMessage} (answered : (d.handle msg now).1 = some reply) :
    ∃ tick, reply = .pong d.selfPeerId tick := by
  cases msg with
  | ping fromPeerId tick =>
      cases answered
      exact ⟨tick, rfl⟩
  | announce | pong | peerList => cases answered

theorem Kept.take (kept : Kept group first id w) (timed : w.Timed) (time : w.clock i ≤ now)
    (found : w.sent[n]? = some (sender, msg)) : Kept group first id (w.take i n now msg) where
  held j member := by
    obtain ⟨p, held, seen⟩ := kept.held j member
    have before (h : ℕ × UInt64) (heard : h ∈ w.heard j)
        (passed : (w.take i n now msg).Passed group first h.1) : w.Passed group first h.1 :=
      (passed_iff rfl (timed j h heard).1).mp passed
    by_cases here : j = i
    · subst here
      obtain ⟨node, heard, -⟩ : (w.take j n now msg).nodes j = _ ∧ _ ∧ _ := take_self
      have call := Discovery.get_handle (w.nodes j) msg now id
      rw [node, heard]
      split_ifs at call with about
      · obtain ⟨q, stored, fresh⟩ := call
        refine ⟨q, stored, fun h member _ => ?_⟩
        rw [fresh]
        obtain old | new := List.mem_append.mp member
        · exact UInt64.le_trans (timed j h old).2 time
        · rw [List.mem_singleton.mp new]
          exact UInt64.le_refl _
      · refine ⟨p, call.trans held, fun h member passed => ?_⟩
        obtain old | new := List.mem_append.mp member
        · exact seen h old (before h old passed)
        · rw [List.mem_singleton.mp new] at passed
          rw [passed_iff rfl (List.getElem?_eq_some_iff.mp found).1] at passed
          exact absurd (kept.named n sender msg passed found) about
    · obtain ⟨node, heard, -⟩ : (w.take i n now msg).nodes j = _ ∧ _ ∧ _ := take_of_ne here
      rw [node, heard]
      exact ⟨p, held, fun h member passed => seen h member (before h member passed)⟩
  named := by
    refine kept.named_grown rfl fun j _ self peers list => ?_
    obtain ⟨reply, answered, same⟩ := List.mem_map.mp list
    obtain ⟨tick, rfl⟩ := reply_pong (Option.mem_toList.mp answered)
    cases same

theorem Kept.forget (kept : Kept group first id w) (refreshed : w.Refreshed group first (.evict i now maxAge)) :
    Kept group first id (w.forget i now maxAge) where
  held j member := by
    obtain ⟨p, held, seen⟩ := kept.held j member
    refine ⟨p, ?_, seen⟩
    by_cases here : j = i
    · subst here
      obtain ⟨n, t, heard, passed, recent⟩ := refreshed member
      have later : t ≤ p.lastSeenTick := seen (n, t) heard passed
      rw [forget_self]
      refine (PeerStore.get_evictStale _ _ _ _ _).mpr ⟨held, ?_⟩
      rw [UInt64.le_iff_toNat_le] at later recent ⊢
      rw [Health.toNat_saturatingSub] at recent ⊢
      omega
    · rw [forget_of_ne here]
      exact held
  named := kept.named

theorem Kept.step {a : NeighbourAct ι} (kept : Kept group first id w) (timed : w.Timed)
    (refreshed : w.Refreshed group first a) (taken : w.step a = some w') : Kept group first id w' := by
  cases a with
  | announce info =>
      cases taken
      exact kept.post timed fun j _ self peers same => by cases same
  | ping fromPeerId tick =>
      cases taken
      exact kept.post timed fun j _ self peers same => by cases same
  | pass i =>
      cases taken
      refine kept.post timed fun j member self peers same => ?_
      cases same
      obtain ⟨p, held, -⟩ := kept.held _ member
      exact Discovery.mem_peerList held
  | deliver i n now =>
      obtain ⟨time, sender, msg, found, rfl⟩ := step_deliver.mp taken
      exact kept.take timed time found
  | evict i now maxAge =>
      obtain ⟨-, rfl⟩ := step_evict.mp taken
      exact kept.forget refreshed

end

/-- What a group of nodes tell each other often enough is never forgotten, however long the peer has been silent. -/
theorem hearsay_keeps {ids : ι → String} {before actions : List (NeighbourAct ι)} {w w' : Neighbourhood ι}
    (reached : run step (start ids) before = some w) (ran : run step w actions = some w') {group : Set ι}
    (along : Along step (Refreshed group w.sent.length) w actions) {id : String}
    (known : ∀ i ∈ group, ∃ p, (w.nodes i).store.get id = some p) :
    ∀ i ∈ group, ∃ p, (w'.nodes i).store.get id = some p := by
  have nothing : (start ids).Timed := fun i h member => absurd member List.not_mem_nil
  have times (w : Neighbourhood ι) (a : NeighbourAct ι) (w' : Neighbourhood ι) (timed : w.Timed) (_ : True)
      (taken : w.step a = some w') : w'.Timed := timed.step taken
  have timed : w.Timed := run_invariant times nothing (along_of_forall (fun _ _ => trivial) _) reached
  have kept : Kept group w.sent.length id w := by
    refine ⟨fun i member => ?_, fun n sender msg passed found => ?_⟩
    · obtain ⟨p, held⟩ := known i member
      refine ⟨p, held, fun h heard passed => ?_⟩
      exact absurd (timed i h heard).1 (Nat.not_lt.mpr passed.1)
    · exact absurd (List.getElem?_eq_some_iff.mp found).1 (Nat.not_lt.mpr passed.1)
  have keeps (v : Neighbourhood ι) (a : NeighbourAct ι) (v' : Neighbourhood ι)
      (held : Kept group w.sent.length id v ∧ v.Timed) (refreshed : Refreshed group w.sent.length v a)
      (taken : v.step a = some v') : Kept group w.sent.length id v' ∧ v'.Timed :=
    ⟨held.1.step held.2 refreshed taken, held.2.step taken⟩
  intro i member
  obtain ⟨p, held, -⟩ := (run_invariant keeps ⟨kept, timed⟩ along ran).1.held i member
  exact ⟨p, held⟩

def thirdPeer : PeerInfo := ⟨"peer-3", "peer-3.atc:5000", [], 0⟩

def pairIds (side : Bool) : String := if side then "peer-2" else "peer-1"

def announcement : DiscoveryMessage := .announce thirdPeer

/-- Two nodes that have heard of a third one at tick 5. -/
def introduced : Neighbourhood Bool :=
  (((start pairIds).post none announcement).take false 0 5 announcement).take true 0 5 announcement

/-- They have told each other of it since. -/
def talked : Neighbourhood Bool :=
  let list (side : Bool) : DiscoveryMessage :=
    .peerList (introduced.nodes side).selfPeerId (introduced.nodes side).peerList
  let passed := (introduced.post (some false) (list false)).post (some true) (list true)
  (passed.take true 1 15 (list false)).take false 2 16 (list true)

/-- Each has forgotten whom it has not heard of for 14 ticks. -/
def cleared : Neighbourhood Bool := (talked.forget false 25 14).forget true 25 14

/-- Twenty ticks after its only announcement the third node is still known. -/
theorem hearsay_keeps_silent : (∃ p, (cleared.nodes false).store.get "peer-3" = some p) ∧
    ∃ p, (cleared.nodes true).store.get "peer-3" = some p := by
  have reached : run step (start pairIds) [.announce thirdPeer, .deliver false 0 5, .deliver true 0 5] =
      some introduced := by
    rw [run_of_step rfl, run_of_step (delivered (by decide) rfl), run_of_step (delivered (by decide) rfl), run]
    rfl
  have left : introduced.step (.pass false) = some _ := rfl
  have right : (introduced.post (some false) (.peerList (introduced.nodes false).selfPeerId
    (introduced.nodes false).peerList)).step (.pass true) = some _ := rfl
  have firstClears : talked.step (.evict false 25 14) = some (talked.forget false 25 14) :=
    step_evict.mpr ⟨by decide, rfl⟩
  have secondClears : (talked.forget false 25 14).step (.evict true 25 14) = some cleared :=
    step_evict.mpr ⟨by decide, rfl⟩
  have ran : run step introduced [.pass false, .pass true, .deliver true 1 15, .deliver false 2 16,
      .evict false 25 14, .evict true 25 14] = some cleared := by
    rw [run_of_step left, run_of_step right, run_of_step (delivered (by decide) rfl),
      run_of_step (delivered (by decide) rfl)]
    exact (run_of_step firstClears _).trans (run_of_step secondClears [])
  have along : Along step (Refreshed Set.univ introduced.sent.length) introduced [.pass false, .pass true,
      .deliver true 1 15, .deliver false 2 16, .evict false 25 14, .evict true 25 14] := by
    refine along_of_step left trivial (along_of_step right trivial ?_)
    refine along_of_step (delivered (by decide) rfl) trivial ?_
    refine along_of_step (delivered (by decide) rfl) trivial ?_
    refine along_of_step firstClears ?_ (along_of_step secondClears ?_ trivial)
    · exact fun _ => ⟨2, 16, by decide, ⟨by decide, true, trivial, _, _, rfl⟩, by decide⟩
    · exact fun _ => ⟨1, 15, by decide, ⟨by decide, false, trivial, _, _, rfl⟩, by decide⟩
  have known (side : Bool) (_ : side ∈ Set.univ) : ∃ p, (introduced.nodes side).store.get "peer-3" = some p := by
    cases side
    · exact ⟨{ thirdPeer with lastSeenTick := 5 }, by decide⟩
    · exact ⟨{ thirdPeer with lastSeenTick := 5 }, by decide⟩
  have kept := hearsay_keeps reached ran along known
  exact ⟨kept false trivial, kept true trivial⟩

/-- Somebody has announced the peer with this address and these capabilities. -/
def Announced (actions : List (NeighbourAct ι)) (p : PeerInfo) : Prop :=
  ∃ info, .announce info ∈ actions ∧ p = { info with lastSeenTick := p.lastSeenTick }

/-- What is stored and what has been sent has been announced. -/
structure Authentic (actions : List (NeighbourAct ι)) (w : Neighbourhood ι) : Prop where
  stored : ∀ i id p, (w.nodes i).store.get id = some p → Announced actions p
  sent : ∀ message ∈ w.sent, ∀ p ∈ message.2.infos, Announced actions p

section
variable {actions : List (NeighbourAct ι)} {w w' : Neighbourhood ι}

omit [DecidableEq ι] in
theorem Authentic.post (authentic : Authentic actions w) {sender : Option ι} {msg : DiscoveryMessage}
    (announced : ∀ p ∈ msg.infos, Announced actions p) : Authentic actions (w.post sender msg) where
  stored := authentic.stored
  sent message member := by
    obtain old | new := List.mem_append.mp member
    · exact authentic.sent message old
    · rw [List.mem_singleton.mp new]
      exact announced

theorem Authentic.step {a : NeighbourAct ι} (authentic : Authentic actions w) (known : a ∈ actions)
    (taken : w.step a = some w') : Authentic actions w' := by
  cases a with
  | announce info =>
      cases taken
      refine authentic.post fun p member => ?_
      rw [List.mem_singleton.mp member]
      exact ⟨info, known, rfl⟩
  | ping fromPeerId tick =>
      cases taken
      exact authentic.post fun p member => absurd member List.not_mem_nil
  | pass i =>
      cases taken
      exact authentic.post fun p member => authentic.stored i _ p (PeerStore.mem_all.mp member)
  | deliver i n now =>
      obtain ⟨-, sender, msg, found, rfl⟩ := step_deliver.mp taken
      have told := authentic.sent _ (List.mem_of_getElem? found)
      constructor
      · intro j id p held
        by_cases here : j = i
        · subst here
          rw [take_self.1] at held
          obtain old | ⟨q, member, rfl⟩ := Discovery.get_handle_cases held
          · exact authentic.stored j id p old
          · obtain ⟨info, announced, same⟩ := told q member
            exact ⟨info, announced, by rw [same]⟩
        · rw [(take_of_ne here).1] at held
          exact authentic.stored j id p held
      · intro message member
        obtain old | new := List.mem_append.mp member
        · exact authentic.sent message old
        · obtain ⟨reply, answered, rfl⟩ := List.mem_map.mp new
          obtain ⟨tick, rfl⟩ := reply_pong (Option.mem_toList.mp answered)
          exact fun p member => absurd member List.not_mem_nil
  | evict i now maxAge =>
      obtain ⟨-, rfl⟩ := step_evict.mp taken
      refine ⟨fun j id p held => ?_, authentic.sent⟩
      by_cases here : j = i
      · subst here
        rw [forget_self] at held
        exact authentic.stored j id p ((PeerStore.get_evictStale _ _ _ _ _).mp held).1
      · rw [forget_of_ne here] at held
        exact authentic.stored j id p held

end

/-- Through however many nodes it has come, what is known of a peer is what somebody has announced. -/
theorem no_peer_invented {ids : ι → String} {actions : List (NeighbourAct ι)} {w : Neighbourhood ι}
    (ran : run step (start ids) actions = some w) {i : ι} {id : String} {p : PeerInfo}
    (held : (w.nodes i).store.get id = some p) : p.peerId = id ∧ Announced actions p := by
  have nothing : Authentic actions (start ids) := by
    refine ⟨fun i id p held => ?_, fun message member => absurd member List.not_mem_nil⟩
    cases (PeerStore.get_new id).symm.trans held
  have along : Along step (fun _ a => a ∈ actions) (start ids) actions := along_of_forall (fun a member => member) _
  have keeps (v : Neighbourhood ι) (a : NeighbourAct ι) (v' : Neighbourhood ι) (authentic : Authentic actions v)
      (known : a ∈ actions) (taken : v.step a = some v') : Authentic actions v' := authentic.step known taken
  exact ⟨(w.nodes i).store.keyed id p held, (run_invariant keeps nothing along ran).stored i id p held⟩

/-- The second node knows the third one from the first one. -/
theorem no_peer_invented_relayed : ∃ w p,
    run step (start pairIds) [.announce thirdPeer, .deliver false 0 5, .pass false, .deliver true 1 9] = some w ∧
      (w.nodes true).store.get "peer-3" = some p ∧
      Announced [.announce thirdPeer, .deliver false 0 5, .pass false, .deliver true 1 9] p := by
  have heard : (((run step (start pairIds) [.announce thirdPeer, .deliver false 0 5, .pass false,
      .deliver true 1 9]).bind fun w => (w.nodes true).store.get "peer-3").isSome) = true := by
    decide +kernel
  obtain ⟨p, known⟩ := Option.isSome_iff_exists.mp heard
  obtain ⟨w, ran, held⟩ := Option.bind_eq_some_iff.mp known
  exact ⟨w, p, ran, held, (no_peer_invented ran held).2⟩

end Neighbourhood
end KaiOs.Network
