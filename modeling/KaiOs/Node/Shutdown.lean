import KaiOs.Lib.Picks
import KaiOs.Node.Boot
import KaiOs.Node.Config

/-! `node/src/shutdown.rs`: the subsystems are stopped one by one by their names, in the order that
the supervisor gives. -/
namespace KaiOs.Node
open Visits Picks

structure ShutdownReport where
  stoppedInOrder : List String
  forced : List String
  clean : Bool
  deriving DecidableEq

/-- What the loop of `shutdown_all` works on. -/
structure Draining (σ : Type) where
  sup : Supervisor σ
  stopped : List String
  forced : List String
  events : List Event

namespace ShutdownCoordinator
variable {σ : Type} [Subsystem σ]

def drainStep (d : Draining σ) (name : String) : Draining σ :=
  match d.sup.stopSubsystem name with
  | (.ok (), sup, events) => { d with sup, stopped := d.stopped ++ [name], events := d.events ++ events }
  | (.error _, sup, events) => { d with sup, forced := d.forced ++ [name], events := d.events ++ events }

def shutdownAll (s : Supervisor σ) : ShutdownReport × Supervisor σ × List Event :=
  let done := s.shutdownOrder.foldl drainStep ⟨s, [], [], []⟩
  (⟨done.stopped, done.forced, done.forced.isEmpty⟩, done.sup, done.events)

end ShutdownCoordinator

namespace Supervisor
variable {σ : Type} [Subsystem σ]

def nameOf (p : Entry σ × ℕ) : String := Subsystem.name p.1.subsystem

/-- The names of the running entries. -/
def runningNames (s : Supervisor σ) : List String := (up 0 s.entries).map nameOf

theorem shutdownOrder_eq (s : Supervisor σ) : s.shutdownOrder = s.runningNames.reverse := by
  have pairs (index : ℕ) (es : List (Entry σ)) :
      (es.filter (·.running)).map (fun e => Subsystem.name e.subsystem) = (up index es).map nameOf := by
    induction es generalizing index with
    | nil => rfl
    | cons e es ih =>
        rw [up, List.zipIdx_cons, List.filter_cons, List.filter_cons]
        cases e.running with
        | true => exact congrArg _ (ih (index + 1))
        | false => exact ih (index + 1)
  rw [shutdownOrder, List.filter_reverse, List.map_reverse, pairs 0]
  rfl

theorem stopCalls_nodup (index : ℕ) (es : List (Entry σ)) : ((up index es).map stopCall).Nodup := by
  have indices : (((up index es).map stopCall).map Prod.fst).Nodup := by
    rw [List.map_map]
    refine List.Nodup.sublist (List.filter_sublist.map _) ?_
    have numbers : (es.zipIdx index).map (Prod.fst ∘ stopCall) = List.range' index es.length :=
      List.zipIdx_map_snd index es
    rw [numbers]
    exact List.nodup_range'
  exact indices.of_map _

/-- The lookup by name and the first running entry with that name agree. -/
theorem up_find (name : String) (index : ℕ) (es : List (Entry σ)) :
    match es.findIdx? fun e => Subsystem.name e.subsystem = name && e.running with
    | some j => ∃ e, es[j]? = some e ∧ first nameOf name (up index es) = some (e, index + j) ∧
        ∀ other : Entry σ, other.running = false →
          up index (es.set j other) = without nameOf name (up index es)
    | none => first nameOf name (up index es) = none := by
  induction es generalizing index with
  | nil => rfl
  | cons e es ih =>
      have rest := ih (index + 1)
      rw [List.findIdx?_cons, up_cons]
      by_cases here : (Subsystem.name e.subsystem = name && e.running) = true
      · obtain ⟨named, up_now⟩ := Bool.and_eq_true_iff.mp here
        have same : nameOf (e, index) = name := of_decide_eq_true named
        obtain ⟨taken, others⟩ := cons_of_eq same (up (index + 1) es)
        rw [if_pos here, if_pos up_now, taken, others]
        refine ⟨e, rfl, rfl, fun other out => ?_⟩
        rw [List.set_cons_zero, up_cons, out]
        rfl
      · rw [if_neg here]
        have passed : first nameOf name
              (if e.running then (e, index) :: up (index + 1) es else up (index + 1) es) =
              first nameOf name (up (index + 1) es) ∧
            without nameOf name (if e.running then (e, index) :: up (index + 1) es else up (index + 1) es) =
              if e.running then (e, index) :: without nameOf name (up (index + 1) es)
              else without nameOf name (up (index + 1) es) := by
          cases up_now : e.running with
          | false => exact ⟨rfl, rfl⟩
          | true =>
              rw [up_now, Bool.and_true, decide_eq_true_eq] at here
              have other : nameOf (e, index) ≠ name := here
              exact cons_of_ne other (up (index + 1) es)
        rw [passed.1, passed.2]
        cases found : es.findIdx? fun e => Subsystem.name e.subsystem = name && e.running with
        | none =>
            rw [found] at rest
            exact rest
        | some j =>
            rw [found] at rest
            obtain ⟨hit, held, taken, others⟩ := rest
            refine ⟨hit, held, by rw [taken, Nat.add_right_comm, Nat.add_assoc], fun other out => ?_⟩
            rw [List.set_cons_succ, up_cons, others other out]

/-- A stop by name takes the first running entry with the name out of service. -/
theorem stopSubsystem_picks (s : Supervisor σ) (name : String) :
    calls (s.stopSubsystem name).2.2 = ((first nameOf name (up 0 s.entries)).map stopCall).toList ∧
      up 0 (s.stopSubsystem name).2.1.entries = without nameOf name (up 0 s.entries) := by
  have found := up_find name 0 s.entries
  rw [stopSubsystem]
  cases hit : s.entries.findIdx? fun e => Subsystem.name e.subsystem = name && e.running with
  | none =>
      rw [hit] at found
      have nobody : without nameOf name (up 0 s.entries) = up 0 s.entries :=
        List.eraseP_of_forall_not (List.find?_eq_none.mp found)
      rw [found, nobody]
      exact ⟨rfl, rfl⟩
  | some j =>
      rw [hit] at found
      obtain ⟨e, held, taken, others⟩ := found
      rw [Nat.zero_add] at taken
      dsimp only
      rw [taken, held]
      exact ⟨rfl, others _ rfl⟩

end Supervisor

namespace ShutdownCoordinator
variable {σ : Type} [Subsystem σ]
open Supervisor

theorem drainStep_cases (d : Draining σ) (name : String) :
    (drainStep d name).events = d.events ++ (d.sup.stopSubsystem name).2.2 ∧
      (drainStep d name).sup = (d.sup.stopSubsystem name).2.1 ∧
      ((drainStep d name).stopped ++ (drainStep d name).forced).Perm (d.stopped ++ d.forced ++ [name]) := by
  rw [drainStep]
  cases d.sup.stopSubsystem name with
  | mk result rest =>
      cases result with
      | ok =>
          refine ⟨rfl, rfl, ?_⟩
          rw [List.append_assoc, List.append_assoc]
          exact List.perm_append_comm.append_left d.stopped
      | error err => exact ⟨rfl, rfl, by rw [List.append_assoc]⟩

/-- Each name asked for ends up in the report once, and the stops are those of the items picked. -/
theorem drain_picks (names : List String) (d : Draining σ) :
    calls (names.foldl drainStep d).events =
        calls d.events ++ (picked nameOf names (up 0 d.sup.entries)).map stopCall ∧
      up 0 (names.foldl drainStep d).sup.entries = unpicked nameOf names (up 0 d.sup.entries) ∧
      ((names.foldl drainStep d).stopped ++ (names.foldl drainStep d).forced).Perm
        (d.stopped ++ d.forced ++ names) := by
  induction names generalizing d with
  | nil => exact ⟨(List.append_nil _).symm, rfl, by rw [List.append_nil]; exact .refl _⟩
  | cons name names ih =>
      obtain ⟨made, left⟩ := stopSubsystem_picks d.sup name
      obtain ⟨events, entries, listed⟩ := ih (drainStep d name)
      obtain ⟨happened, after, reported⟩ := drainStep_cases d name
      rw [List.foldl_cons, picked, unpicked, List.foldl_cons, events, entries, happened, after, calls_append, made,
        left, List.map_append, List.append_assoc]
      refine ⟨?_, rfl, ?_⟩
      · cases first nameOf name (up 0 d.sup.entries) <;> rfl
      · refine listed.trans ?_
        rw [List.append_cons (d.stopped ++ d.forced)]
        exact reported.append_right names

theorem shutdownAll_picks (s : Supervisor σ) :
    calls (shutdownAll s).2.2 = (picked nameOf s.runningNames.reverse (up 0 s.entries)).map stopCall ∧
      up 0 (shutdownAll s).2.1.entries = unpicked nameOf s.runningNames.reverse (up 0 s.entries) ∧
      ((shutdownAll s).1.stoppedInOrder ++ (shutdownAll s).1.forced).Perm s.runningNames.reverse := by
  rw [shutdownAll, shutdownOrder_eq]
  exact drain_picks s.runningNames.reverse ⟨s, [], [], []⟩

theorem drains_back_iff (s : Supervisor σ) :
    calls (shutdownAll s).2.2 = stopsBack 0 s.entries ↔ s.runningNames.Nodup := by
  rw [(shutdownAll_picks s).1, stopsBack]
  exact picked_reverse_iff (stopCalls_nodup 0 s.entries)

/-- Stopping by name calls each running subsystem once, leaves none running and reports each of
them, but in the reverse order only if the running subsystems have different names. -/
theorem shutdown_reverse_iff (s : Supervisor σ) :
    (calls (shutdownAll s).2.2).Perm (stopsBack 0 s.entries) ∧
    (∀ e ∈ (shutdownAll s).2.1.entries, e.running = false) ∧
    ((shutdownAll s).1.stoppedInOrder ++ (shutdownAll s).1.forced).Perm s.runningNames ∧
    (calls (shutdownAll s).2.2 = stopsBack 0 s.entries ↔ s.runningNames.Nodup) := by
  have asked : s.runningNames.reverse.Perm s.runningNames := List.reverse_perm _
  obtain ⟨made, left, reported⟩ := shutdownAll_picks s
  obtain ⟨all, none_left⟩ := picked_perm asked
  refine ⟨?_, up_eq_nil.mp (left.trans none_left), reported.trans asked, drains_back_iff s⟩
  rw [made, stopsBack]
  exact (all.map stopCall).trans (List.reverse_perm _).symm

end ShutdownCoordinator

section Daemon
open Supervisor ShutdownCoordinator

/-- The stubs of the names are running and have no failures to come. -/
def Steady : List String → List (Entry StubSubsystem) → Prop :=
  List.Forall₂ fun name e => e.subsystem.name = name ∧ e.subsystem.failTicksRemaining = 0 ∧ e.running = true

theorem steady_visit {names : List String} {es : List (Entry StubSubsystem)} (steady : Steady names es)
    (maxRestarts : UInt32) (backoffMs : UInt64) (index : ℕ) :
    Steady names (visitFrom (tickEntry maxRestarts backoffMs) index es).1 := by
  induction steady generalizing index with
  | nil => exact .nil
  | @cons name e names es first _ ih =>
      obtain ⟨named, fine, running⟩ := first
      refine .cons ?_ (ih (index + 1))
      simp [tickEntry, Subsystem.tick, named, fine, running]

theorem steady_ticks {names : List String} {s : Supervisor StubSubsystem}
    (steady : Steady names s.entries) (n : ℕ) : Steady names (s.ticks n).1.entries := by
  induction n with
  | zero => exact steady
  | succ n ih => exact steady_visit ih _ _ 0

theorem names_of_steady {names : List String} {es : List (Entry StubSubsystem)} (steady : Steady names es)
    (index : ℕ) : (up index es).map nameOf = names := by
  induction steady generalizing index with
  | nil => rfl
  | cons first _ ih =>
      obtain ⟨named, -, running⟩ := first
      rw [up_cons, running, if_pos rfl, List.map_cons, ih, ← named]
      rfl

theorem steady_boot {config : NodeConfig} (valid : config.validate = .ok ()) :
    ∃ s events, (registered config.maxRestarts config.restartBackoffMs config.subsystems).startAll =
      (.ok (), s, events) ∧ Steady config.enabledSubsystems s.entries := by
  have starts : ∀ e ∈ (registered config.maxRestarts config.restartBackoffMs config.subsystems).entries,
      (Subsystem.start e.subsystem).1 = .ok () := by
    rw [registered_entries, NodeConfig.subsystems_of_validate valid, List.map_map, List.forall_mem_map]
    exact fun _ _ => rfl
  cases run : startFrom 0 (registered config.maxRestarts config.restartBackoffMs config.subsystems).entries with
  | mk result rest =>
      obtain ⟨entries, events⟩ := rest
      cases result with
      | error err =>
          obtain ⟨front, failing, behind, split, -, failed, -⟩ := startFrom_error run
          have fine := starts failing (by rw [split]; simp)
          rw [fine] at failed
          cases failed
      | ok =>
          refine ⟨_, events, by rw [startAll, run], ?_⟩
          rw [(startFrom_ok run).1, registered_entries, NodeConfig.subsystems_of_validate valid,
            List.map_map, List.map_map]
          show Steady _ _
          induction config.enabledSubsystems with
          | nil => exact .nil
          | cons name names ih => exact .cons ⟨rfl, rfl, rfl⟩ ih

/-- The daemon drains in the reverse order exactly if its configuration names no subsystem twice. -/
theorem daemon_drains_iff {config : NodeConfig} (valid : config.validate = .ok ()) :
    ∃ s events, (registered config.maxRestarts config.restartBackoffMs config.subsystems).startAll =
        (.ok (), s, events) ∧
      ∀ n, calls (shutdownAll (s.ticks n).1).2.2 = stopsBack 0 (s.ticks n).1.entries ↔
        config.enabledSubsystems.Nodup := by
  obtain ⟨s, events, booted, steady⟩ := steady_boot valid
  refine ⟨s, events, booted, fun n => ?_⟩
  have names : (s.ticks n).1.runningNames = config.enabledSubsystems := names_of_steady (steady_ticks steady n) 0
  rw [drains_back_iff, names]

end Daemon

/-- An accepted configuration with a repeated name. -/
def twoPeers : NodeConfig := { NodeConfig.defaultForTest with enabledSubsystems := ["p2p", "p2p"] }

open Supervisor ShutdownCoordinator

theorem twoPeers_drain_in_start_order :
    twoPeers.validate = .ok () ∧
    ∃ s events, (registered twoPeers.maxRestarts twoPeers.restartBackoffMs twoPeers.subsystems).startAll =
        (.ok (), s, events) ∧
      stopsBack 0 s.entries = [(1, .stop, true), (0, .stop, true)] ∧
      calls (shutdownAll s).2.2 = [(0, .stop, true), (1, .stop, true)] :=
  ⟨by decide, _, _, rfl, by decide, by decide⟩

end KaiOs.Node
