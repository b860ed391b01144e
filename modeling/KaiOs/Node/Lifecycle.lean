import KaiOs.Node.RestartPolicy

/-! `node/src/lifecycle.rs` and the loop of `node/src/main.rs`: the lifecycle of the daemon follows the
health that the supervisor reports tick by tick. -/
namespace KaiOs.Node

inductive State where
  | init
  | boot
  | running
  | degraded
  | shutdown
  | stopped
  deriving DecidableEq

structure LifecycleError where
  fromState : State
  toState : State
  deriving DecidableEq

def canTransition : State → State → Bool
  | .init, .boot | .init, .shutdown
  | .boot, .running | .boot, .degraded | .boot, .shutdown
  | .running, .degraded | .running, .shutdown
  | .degraded, .running | .degraded, .shutdown
  | .shutdown, .stopped => true
  | _, _ => false

structure Lifecycle where
  current : State
  history : List (State × State)
  deriving DecidableEq

namespace Lifecycle

def new : Lifecycle := ⟨.init, []⟩

def transition (lc : Lifecycle) (target : State) : Except LifecycleError State × Lifecycle :=
  if ! canTransition lc.current target then (.error ⟨lc.current, target⟩, lc)
  else (.ok target, ⟨target, lc.history ++ [(lc.current, target)]⟩)

end Lifecycle

/-- What the loop works on. -/
structure Daemon (σ : Type) where
  sup : Supervisor σ
  lc : Lifecycle

namespace Daemon
open Supervisor
variable {σ : Type} [Subsystem σ]

/-- The start of `run` up to the loop; none if the boot fails. -/
def boot (maxRestarts : UInt32) (backoffMs : UInt64) (subsystems : List σ) : Option (Daemon σ) :=
  let lc := (Lifecycle.new.transition .boot).2
  match (registered maxRestarts backoffMs subsystems).startAll with
  | (.ok (), sup, _) => some ⟨sup, (lc.transition .running).2⟩
  | (.error _, _, _) => none

/-- One pass of the loop, with the transitions it attempts. -/
def pass (d : Daemon σ) : Daemon σ × List (Except LifecycleError State) × List Event :=
  let (health, sup, events) := d.sup.tickAll
  match health with
  | .healthy =>
      if d.lc.current = .degraded then
        let (result, lc) := d.lc.transition .running
        (⟨sup, lc⟩, [result], events ++ [.recorded "lifecycle" "Degraded -> Running (recovered)"])
      else (⟨sup, d.lc⟩, [], events)
  | .degraded | .unhealthy =>
      if d.lc.current = .running then
        let (result, lc) := d.lc.transition .degraded
        (⟨sup, lc⟩, [result], events ++ [.recorded "lifecycle" "Running -> Degraded (unhealthy subsystem)"])
      else (⟨sup, d.lc⟩, [], events)

/-- Passes, one after the other, and all transitions attempted in them. -/
def passes (d : Daemon σ) : ℕ → Daemon σ × List (Except LifecycleError State)
  | 0 => (d, [])
  | n + 1 => ((d.passes n).1.pass.1, (d.passes n).2 ++ (d.passes n).1.pass.2.1)

end Daemon

/-- Subsystems that are healthy exactly while they are started and can always be stopped. -/
structure HealthyWhileStarted (σ : Type) [Subsystem σ] : Prop where
  started : ∀ s : σ, (Subsystem.start s).1.isOk = true → Subsystem.health (Subsystem.start s).2 = .healthy
  notStarted : ∀ s : σ, (Subsystem.start s).1.isOk = false →
    (Subsystem.health (Subsystem.start s).2 = .healthy ↔ Subsystem.health s = .healthy)
  stops : ∀ s : σ, (Subsystem.stop s).1.isOk = true
  stopped : ∀ s : σ, Subsystem.health (Subsystem.stop s).2 ≠ .healthy
  ticked : ∀ s : σ, Subsystem.health (Subsystem.tick s).2 = .healthy ↔ Subsystem.health s = .healthy

theorem worst_eq_healthy (a b : HealthStatus) : a.worst b = .healthy ↔ a = .healthy ∧ b = .healthy := by
  cases a <;> cases b <;> decide

theorem overall_eq_healthy (statuses : List HealthStatus) :
    overall statuses = .healthy ↔ ∀ status ∈ statuses, status = .healthy := by
  have from_any (start : HealthStatus) : statuses.foldl HealthStatus.worst start = .healthy ↔
      start = .healthy ∧ ∀ status ∈ statuses, status = .healthy := by
    induction statuses generalizing start with
    | nil => simp
    | cons first statuses ih => rw [List.foldl_cons, ih, worst_eq_healthy, List.forall_mem_cons, and_assoc]
  rw [overall, from_any, and_iff_right rfl]

/-- The cached health of an entry says whether it is running, and what runs is healthy. -/
structure Aligned {σ : Type} [Subsystem σ] (e : Entry σ) : Prop where
  cached : e.lastHealth = .healthy ↔ e.running = true
  healthy : e.running = true → Subsystem.health e.subsystem = .healthy

section
variable {σ : Type} [Subsystem σ] (laws : HealthyWhileStarted σ)
include laws
open Supervisor

theorem aligned_started {e : Entry σ} (ok : (Subsystem.start e.subsystem).1.isOk = true) :
    Aligned (startedEntry e) :=
  ⟨iff_of_true (laws.started _ ok) rfl, fun _ => laws.started _ ok⟩

theorem aligned_ticked {maxRestarts : UInt32} {e next : Entry σ} {calls : List (Method × Bool)}
    (aligned : Aligned e) (ticked : Ticked maxRestarts e next calls) : Aligned next := by
  cases ticked with
  | skipped => exact aligned
  | ticked up fine =>
      have still := (laws.ticked e.subsystem).mpr (aligned.healthy up)
      exact ⟨iff_of_true still up, fun _ => still⟩
  | restarted stop start up failed allowed stopped started =>
      subst stopped started
      cases outcome : (Subsystem.start (Subsystem.stop (Subsystem.tick e.subsystem).2).2).1.isOk with
      | true => exact ⟨iff_of_true (laws.started _ outcome) rfl, fun _ => laws.started _ outcome⟩
      | false =>
          have down :
              Subsystem.health (Subsystem.start (Subsystem.stop (Subsystem.tick e.subsystem).2).2).2 ≠ .healthy :=
            fun well => laws.stopped _ ((laws.notStarted _ outcome).mp well)
          exact ⟨iff_of_false down Bool.false_ne_true, nofun⟩
  | gaveUp stop up failed spent stopped =>
      subst stopped
      exact ⟨iff_of_false (laws.stopped _) Bool.false_ne_true, nofun⟩

end

theorem ticked_out {σ : Type} [Subsystem σ] {maxRestarts : UInt32} {e next : Entry σ}
    {calls : List (Method × Bool)} (ticked : Supervisor.Ticked maxRestarts e next calls)
    (out : e.running = false) : next.running = false := by
  cases ticked with
  | skipped => exact out
  | ticked up | restarted _ _ up | gaveUp _ up => exact Bool.noConfusion (up.symm.trans out)

namespace Daemon
open Supervisor

section
variable {σ : Type} [Subsystem σ]

/-- A pass moves the lifecycle to what the health of its tick says, by legal transitions. -/
theorem pass_follows {d : Daemon σ} (state : d.lc.current = .running ∨ d.lc.current = .degraded) :
    d.pass.1.sup = d.sup.tickAll.2.1 ∧
      d.pass.1.lc.current = (if d.sup.tickAll.1 = .healthy then .running else .degraded) ∧
      ∀ result ∈ d.pass.2.1, result.isOk = true := by
  obtain ⟨sup, ⟨current, history⟩⟩ := d
  rw [pass]
  cases sup.tickAll with
  | mk health rest =>
      dsimp only at state ⊢
      obtain rfl | rfl := state
      · cases health with
        | healthy => exact ⟨rfl, rfl, nofun⟩
        | degraded | unhealthy => exact ⟨rfl, rfl, List.forall_mem_singleton.mpr rfl⟩
      · cases health with
        | healthy => exact ⟨rfl, rfl, List.forall_mem_singleton.mpr rfl⟩
        | degraded | unhealthy => exact ⟨rfl, rfl, nofun⟩

/-- The lifecycle runs while everything does, and the cached healths say what does. -/
structure Agrees (d : Daemon σ) : Prop where
  aligned : ∀ e ∈ d.sup.entries, Aligned e
  state : d.lc.current = .running ∨ d.lc.current = .degraded
  running : d.lc.current = .running ↔ ∀ e ∈ d.sup.entries, e.running = true

theorem tickAll_healthy {s : Supervisor σ} (aligned : ∀ e ∈ s.tickAll.2.1.entries, Aligned e) :
    s.tickAll.1 = .healthy ↔ ∀ e ∈ s.tickAll.2.1.entries, e.running = true := by
  have reported : s.tickAll.1 = overall (s.tickAll.2.1.entries.map (·.lastHealth)) := rfl
  rw [reported, overall_eq_healthy, List.forall_mem_map]
  exact forall₂_congr fun e member => (aligned e member).cached

theorem tickAll_mem {s : Supervisor σ} {next : Entry σ} (member : next ∈ s.tickAll.2.1.entries) :
    ∃ e ∈ s.entries, ∃ calls, Ticked s.maxRestarts e next calls := by
  obtain ⟨index, found⟩ := List.mem_iff_getElem?.mp member
  cases held : s.entries[index]? with
  | none =>
      rw [(tickAll_none held).1] at found
      cases found
  | some e =>
      obtain ⟨other, there, ticked⟩ := tickAll_entry held
      cases found.symm.trans there
      exact ⟨e, List.mem_of_getElem? held, _, ticked⟩

theorem agrees_pass (laws : HealthyWhileStarted σ) {d : Daemon σ} (agrees : d.Agrees) : d.pass.1.Agrees := by
  obtain ⟨sup, current, -⟩ := pass_follows agrees.state
  have aligned : ∀ e ∈ d.sup.tickAll.2.1.entries, Aligned e := by
    intro next member
    obtain ⟨e, before, calls, ticked⟩ := tickAll_mem member
    exact aligned_ticked laws (agrees.aligned e before) ticked
  refine ⟨by rw [sup]; exact aligned, ?_, ?_⟩
  · rw [current]
    split
    · exact .inl rfl
    · exact .inr rfl
  · rw [current, sup, ← tickAll_healthy aligned]
    split
    · next well => exact iff_of_true rfl well
    · next ill => exact iff_of_false (by decide) ill

theorem agrees_boot (laws : HealthyWhileStarted σ) {maxRestarts : UInt32} {backoffMs : UInt64}
    {subsystems : List σ} {d : Daemon σ} (booted : boot maxRestarts backoffMs subsystems = some d) : d.Agrees := by
  rw [boot] at booted
  split at booted
  · next sup events started =>
      cases booted
      obtain ⟨rfl, ok⟩ := startAll_ok started
      refine ⟨?_, .inl rfl, iff_of_true rfl ?_⟩
      · exact List.forall_mem_map.mpr fun e member => aligned_started laws (ok e member)
      · exact List.forall_mem_map.mpr fun _ _ => rfl
  · cases booted

theorem agrees_passes (laws : HealthyWhileStarted σ) {d : Daemon σ} (agrees : d.Agrees) (n : ℕ) :
    (d.passes n).1.Agrees ∧ ∀ result ∈ (d.passes n).2, result.isOk = true := by
  induction n with
  | zero => exact ⟨agrees, nofun⟩
  | succ n ih =>
      obtain ⟨still, legal⟩ := ih
      refine ⟨agrees_pass laws still, fun result member => ?_⟩
      obtain earlier | now := List.mem_append.mp member
      · exact legal result earlier
      · exact (pass_follows still.state).2.2 result now

theorem passes_out {d : Daemon σ} {index n : ℕ} {e : Entry σ}
    (state : ∀ m, (d.passes m).1.lc.current = .running ∨ (d.passes m).1.lc.current = .degraded)
    (held : (d.passes n).1.sup.entries[index]? = some e) (out : e.running = false) (more : ℕ) :
    ∃ next, (d.passes (n + more)).1.sup.entries[index]? = some next ∧ next.running = false := by
  induction more with
  | zero => exact ⟨e, held, out⟩
  | succ more ih =>
      obtain ⟨mid, found, down⟩ := ih
      obtain ⟨next, there, ticked⟩ := tickAll_entry found
      refine ⟨next, ?_, ticked_out ticked down⟩
      rw [← Nat.add_assoc, passes, (pass_follows (state (n + more))).1]
      exact there

/-- Behind every pass the lifecycle runs exactly when every subsystem does and is degraded
otherwise; every transition was legal; and a given-up subsystem keeps it degraded. -/
theorem lifecycle_agrees (laws : HealthyWhileStarted σ) (maxRestarts : UInt32) (backoffMs : UInt64)
    (subsystems : List σ) {d : Daemon σ} (booted : boot maxRestarts backoffMs subsystems = some d) (n : ℕ) :
    (((d.passes n).1.lc.current = .running ↔ ∀ e ∈ (d.passes n).1.sup.entries, e.running = true) ∧
      ((d.passes n).1.lc.current ≠ .running → (d.passes n).1.lc.current = .degraded)) ∧
    (∀ result ∈ (d.passes n).2, result.isOk = true) ∧
    ∀ e ∈ (d.passes n).1.sup.entries, e.running = false →
      ∀ later ≥ n, (d.passes later).1.lc.current = .degraded := by
  have always (m : ℕ) := agrees_passes laws (agrees_boot laws booted) m
  refine ⟨⟨(always n).1.running, fun other => (always n).1.state.resolve_left other⟩, (always n).2, ?_⟩
  intro e member out later after
  obtain ⟨index, held⟩ := List.mem_iff_getElem?.mp member
  obtain ⟨more, rfl⟩ := Nat.exists_eq_add_of_le after
  obtain ⟨next, there, down⟩ := passes_out (fun m => (always m).1.state) held out more
  refine (always (n + more)).1.state.resolve_left fun running => ?_
  have up := (always (n + more)).1.running.mp running next (List.mem_of_getElem? there)
  exact Bool.noConfusion (up.symm.trans down)

end
end Daemon

/-- The only implementation: a stub with failures to come. -/
structure StubSubsystem where
  name : String
  failStartsRemaining : UInt32
  failTicksRemaining : UInt32
  started : Bool
  ticks : UInt32

instance : Subsystem StubSubsystem where
  name := StubSubsystem.name
  start s :=
    if s.failStartsRemaining > 0 then
      (.error ⟨s!"{s.name}: simulated start failure"⟩, { s with failStartsRemaining := s.failStartsRemaining - 1 })
    else (.ok (), { s with started := true })
  stop s := (.ok (), { s with started := false })
  health s := if s.started then .healthy else .unhealthy
  tick s :=
    let s := { s with ticks := s.ticks + 1 }
    if s.failTicksRemaining > 0 then
      (.error ⟨s!"{s.name}: simulated tick failure"⟩, { s with failTicksRemaining := s.failTicksRemaining - 1 })
    else (.ok (), s)

theorem stub_healthyWhileStarted : HealthyWhileStarted StubSubsystem where
  started s ok := by
    simp only [Subsystem.start] at ok ⊢
    split at ok
    · cases ok
    · next plain => simp [Subsystem.health, plain]
  notStarted s failed := by
    simp only [Subsystem.start] at failed ⊢
    split at failed
    · next failing => simp [Subsystem.health, failing]
    · cases failed
  stops _ := rfl
  stopped _ := by simp [Subsystem.health, Subsystem.stop]
  ticked s := by
    simp only [Subsystem.tick]
    split <;> rfl

/-- Two stubs, one of which fails three times. -/
def failingStubs : List StubSubsystem := [⟨"consensus", 0, 3, false, 0⟩, ⟨"p2p", 0, 0, false, 0⟩]

theorem failingStubs_degrade :
    ∃ d, Daemon.boot 2 0 failingStubs = some d ∧ (d.passes 2).1.lc.current = .running ∧
      ∀ later ≥ 3, (d.passes later).1.lc.current = .degraded := by
  have booted : Daemon.boot 2 0 failingStubs = some _ := rfl
  refine ⟨_, booted, by decide, ?_⟩
  exact (Daemon.lifecycle_agrees stub_healthyWhileStarted 2 0 failingStubs booted 3).2.2 _ (.head _) rfl

end KaiOs.Node
