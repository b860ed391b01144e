import KaiOs.Lib.Visits

/-! `node/src/supervisor.rs` and `node/src/health.rs`: the supervisor starts the registered
subsystems, ticks them and restarts those that fail. Every function also gives what it does to the
subsystems and to the audit log, in order. -/
namespace KaiOs.Node
open Visits

inductive HealthStatus where
  | healthy
  | degraded
  | unhealthy
  deriving DecidableEq

def HealthStatus.worst : HealthStatus → HealthStatus → HealthStatus
  | .unhealthy, _ | _, .unhealthy => .unhealthy
  | .degraded, _ | _, .degraded => .degraded
  | .healthy, .healthy => .healthy

def overall (statuses : List HealthStatus) : HealthStatus := statuses.foldl HealthStatus.worst .healthy

structure SubsystemError where
  message : String
  deriving DecidableEq

/-- `Display` -/
def SubsystemError.text (e : SubsystemError) : String := s!"subsystem error: {e.message}"

/-- The trait, over the states of all subsystems. -/
class Subsystem (σ : Type) where
  name : σ → String
  start : σ → Except SubsystemError Unit × σ
  stop : σ → Except SubsystemError Unit × σ
  health : σ → HealthStatus
  tick : σ → Except SubsystemError Unit × σ

/-- The methods with effects. -/
inductive Method where
  | start
  | stop
  | tick
  deriving DecidableEq

/-- What happens besides: the subsystem with an index is called, the supervisor sleeps, an event is
recorded. -/
inductive Event where
  | called (index : ℕ) (method : Method) (ok : Bool)
  | slept (ms : UInt64)
  | recorded (kind detail : String)
  deriving DecidableEq

structure Entry (σ : Type) where
  subsystem : σ
  restarts : UInt32
  lastHealth : HealthStatus
  running : Bool

structure SubsystemStateEntry where
  name : String
  restarts : UInt32
  lastHealth : String
  running : Bool

structure SupervisorState where
  subsystems : List SubsystemStateEntry

structure Supervisor (σ : Type) where
  entries : List (Entry σ)
  maxRestarts : UInt32
  backoffMs : UInt64

namespace Supervisor
variable {σ : Type} [Subsystem σ]

def new (maxRestarts : UInt32) (backoffMs : UInt64) : Supervisor σ := ⟨[], maxRestarts, backoffMs⟩

def register (s : Supervisor σ) (subsystem : σ) : Supervisor σ :=
  { s with entries := s.entries ++ [⟨subsystem, 0, .healthy, false⟩] }

/-- The body of the loop of `stop_started_reverse`. -/
def stopEntry (index : ℕ) (e : Entry σ) : Entry σ × List Event :=
  if e.running then
    let (result, stopped) := Subsystem.stop e.subsystem
    ({ e with subsystem := stopped, running := false }, [.called index .stop result.isOk])
  else (e, [])

def stopStartedReverse (entries : List (Entry σ)) : List (Entry σ) × List Event := visitBack stopEntry 0 entries

/-- The loop of `start_all` up to the first subsystem that does not start. -/
def startFrom : ℕ → List (Entry σ) → Except SubsystemError Unit × List (Entry σ) × List Event
  | _, [] => (.ok (), [], [])
  | index, e :: es =>
      let name := Subsystem.name e.subsystem
      match Subsystem.start e.subsystem with
      | (.ok (), started) =>
          let (result, rest, events) := startFrom (index + 1) es
          (result,
            { e with subsystem := started, running := true, lastHealth := Subsystem.health started } :: rest,
            .called index .start true :: .recorded "supervisor" s!"started {name}" :: events)
      | (.error err, failed) =>
          (.error err, { e with subsystem := failed, lastHealth := .unhealthy } :: es,
            [.called index .start false, .recorded "supervisor" s!"BOOT FAILED at {name}: {err.text}"])

def startAll (s : Supervisor σ) : Except SubsystemError Unit × Supervisor σ × List Event :=
  match startFrom 0 s.entries with
  | (.ok (), entries, events) => (.ok (), { s with entries }, events)
  | (.error err, entries, events) =>
      let (stopped, stops) := stopStartedReverse entries
      (.error err, { s with entries := stopped }, events ++ stops)

/-- The body of the loop of `tick_all`. -/
def tickEntry (maxRestarts : UInt32) (backoffMs : UInt64) (index : ℕ) (e : Entry σ) : Entry σ × List Event :=
  if ! e.running then (e, [])
  else
    match Subsystem.tick e.subsystem with
    | (.ok (), ticked) =>
        ({ e with subsystem := ticked, lastHealth := Subsystem.health ticked }, [.called index .tick true])
    | (.error _, failed) =>
        let name := Subsystem.name failed
        let (stop, stopped) := Subsystem.stop failed
        if e.restarts < maxRestarts then
          let (start, started) := Subsystem.start stopped
          let r := e.restarts + 1
          let stop_ok := stop.isOk
          let start_ok := start.isOk
          (⟨started, r, Subsystem.health started, start_ok⟩,
            [.called index .tick false, .called index .stop stop_ok, .called index .start start_ok] ++
              (if backoffMs > 0 then [.slept backoffMs] else []) ++
              [.recorded "supervisor" s!"restart #{r} of {name} (stop_ok={stop_ok}, start_ok={start_ok})"])
        else
          ({ e with subsystem := stopped, lastHealth := Subsystem.health stopped, running := false },
            [.called index .tick false, .called index .stop stop.isOk,
              .recorded "supervisor" s!"{name} exceeded max_restarts -> UNHEALTHY"])

/-- The flag of the entry with an index. -/
def inService (s : Supervisor σ) (index : ℕ) : Bool := (s.entries[index]?.map (·.running)).getD false

def overallHealth (s : Supervisor σ) : HealthStatus := overall (s.entries.map (·.lastHealth))

def tickAll (s : Supervisor σ) : HealthStatus × Supervisor σ × List Event :=
  let (entries, events) := visitFrom (tickEntry s.maxRestarts s.backoffMs) 0 s.entries
  (overall (entries.map (·.lastHealth)), { s with entries }, events)

/-- The loop body of `restore`: the first entry with the name takes over the counter and the flag. -/
def restoreEntry (s : Supervisor σ) (state : SubsystemStateEntry) : Supervisor σ :=
  match s.entries.findIdx? fun e => Subsystem.name e.subsystem = state.name with
  | some index => { s with
      entries := s.entries.modify index fun e => { e with restarts := state.restarts, running := state.running } }
  | none => s

def restore (s : Supervisor σ) (state : SupervisorState) : Supervisor σ := state.subsystems.foldl restoreEntry s

def shutdownOrder (s : Supervisor σ) : List String :=
  (s.entries.reverse.filter (·.running)).map fun e => Subsystem.name e.subsystem

def stopSubsystem (s : Supervisor σ) (name : String) : Except SubsystemError Unit × Supervisor σ × List Event :=
  match s.entries.findIdx? fun e => Subsystem.name e.subsystem = name && e.running with
  | some index =>
      match s.entries[index]? with
      | some e =>
          let (result, stopped) := Subsystem.stop e.subsystem
          (result, { s with entries := s.entries.set index { e with subsystem := stopped, running := false } },
            [.called index .stop result.isOk])
      | none => (.ok (), s, [])
  | none => (.ok (), s, [])

end Supervisor

/-- The calls that the subsystem with an index has got, and whether they succeeded. -/
def calledAt (index : ℕ) : Event → Option (Method × Bool)
  | .called i method ok => if i = index then some (method, ok) else none
  | .slept _ | .recorded _ _ => none

def callsAt (index : ℕ) (events : List Event) : List (Method × Bool) := events.filterMap (calledAt index)

@[simp] theorem callsAt_nil (index : ℕ) : callsAt index [] = [] := rfl

theorem callsAt_append (index : ℕ) (events more : List Event) :
    callsAt index (events ++ more) = callsAt index events ++ callsAt index more := List.filterMap_append

@[simp] theorem callsAt_called (index i : ℕ) (method : Method) (ok : Bool) (events : List Event) :
    callsAt index (.called i method ok :: events) =
      if i = index then (method, ok) :: callsAt index events else callsAt index events := by
  by_cases same : i = index <;> simp [callsAt, calledAt, same]

@[simp] theorem callsAt_slept (index : ℕ) (ms : UInt64) (events : List Event) :
    callsAt index (.slept ms :: events) = callsAt index events := rfl

@[simp] theorem callsAt_recorded (index : ℕ) (kind detail : String) (events : List Event) :
    callsAt index (.recorded kind detail :: events) = callsAt index events := rfl

namespace Supervisor
variable {σ : Type} [Subsystem σ]

/-- What a tick does to an entry, and the calls its subsystem gets. -/
inductive Ticked (maxRestarts : UInt32) (e : Entry σ) : Entry σ → List (Method × Bool) → Prop
  | skipped (out : e.running = false) : Ticked maxRestarts e e []
  | ticked (up : e.running = true) (fine : (Subsystem.tick e.subsystem).1.isOk = true) :
      Ticked maxRestarts e
        { e with
          subsystem := (Subsystem.tick e.subsystem).2
          lastHealth := Subsystem.health (Subsystem.tick e.subsystem).2 } [(.tick, true)]
  | restarted (stop start : Except SubsystemError Unit × σ) (up : e.running = true)
      (failed : (Subsystem.tick e.subsystem).1.isOk = false) (allowed : e.restarts < maxRestarts)
      (stopped : Subsystem.stop (Subsystem.tick e.subsystem).2 = stop) (started : Subsystem.start stop.2 = start) :
      Ticked maxRestarts e ⟨start.2, e.restarts + 1, Subsystem.health start.2, start.1.isOk⟩
        [(.tick, false), (.stop, stop.1.isOk), (.start, start.1.isOk)]
  | gaveUp (stop : Except SubsystemError Unit × σ) (up : e.running = true)
      (failed : (Subsystem.tick e.subsystem).1.isOk = false) (spent : ¬ e.restarts < maxRestarts)
      (stopped : Subsystem.stop (Subsystem.tick e.subsystem).2 = stop) :
      Ticked maxRestarts e
        { e with subsystem := stop.2, lastHealth := Subsystem.health stop.2, running := false }
        [(.tick, false), (.stop, stop.1.isOk)]

theorem tickEntry_ticked (maxRestarts : UInt32) (backoffMs : UInt64) (index : ℕ) (e : Entry σ) :
    Ticked maxRestarts e (tickEntry maxRestarts backoffMs index e).1
      (callsAt index (tickEntry maxRestarts backoffMs index e).2) := by
  have quiet : callsAt index (if backoffMs > 0 then [Event.slept backoffMs] else []) = [] := by
    split <;> rfl
  rw [tickEntry]
  cases up : e.running with
  | false => exact .skipped up
  | true =>
      rw [Bool.not_true, if_neg Bool.false_ne_true]
      cases tick : Subsystem.tick e.subsystem with
      | mk result after =>
          cases result with
          | ok =>
              have fine : Ticked maxRestarts e _ _ := .ticked up (by rw [tick]; rfl)
              simpa [tick, up] using fine
          | error err =>
              have failed : (Subsystem.tick e.subsystem).1.isOk = false := by
                rw [tick]
                rfl
              have stop : Subsystem.stop (Subsystem.tick e.subsystem).2 = Subsystem.stop after := by rw [tick]
              by_cases allowed : e.restarts < maxRestarts
              · simpa [allowed, callsAt_append, quiet] using Ticked.restarted _ _ up failed allowed stop rfl
              · simpa [allowed] using Ticked.gaveUp _ up failed allowed stop

theorem tickEntry_own (maxRestarts : UInt32) (backoffMs : UInt64) {index other : ℕ} (e : Entry σ)
    (apart : other ≠ index) : callsAt other (tickEntry maxRestarts backoffMs index e).2 = [] := by
  have quiet : callsAt other (if backoffMs > 0 then [Event.slept backoffMs] else []) = [] := by
    split <;> rfl
  rw [tickEntry]
  split
  · rfl
  · split
    · simp [Ne.symm apart]
    · dsimp only
      split
      · simp [callsAt_append, quiet, Ne.symm apart]
      · simp [Ne.symm apart]

theorem tickAll_at (s : Supervisor σ) (index : ℕ) :
    s.tickAll.2.1.entries[index]? =
        s.entries[index]?.map (fun e => (tickEntry s.maxRestarts s.backoffMs index e).1) ∧
      callsAt index s.tickAll.2.2 =
        (s.entries[index]?.map fun e =>
          callsAt index (tickEntry s.maxRestarts s.backoffMs index e).2).getD [] := by
  have entries := getElem?_visitFrom (f := tickEntry s.maxRestarts s.backoffMs) 0 s.entries index
  have own (i j : ℕ) (e : Entry σ) (apart : i ≠ j) : callsAt i (tickEntry s.maxRestarts s.backoffMs j e).2 = [] :=
    tickEntry_own _ _ e apart
  have calls := (seen_visit calledAt own 0 s.entries index).1
  rw [Nat.zero_add] at entries calls
  exact ⟨entries, calls⟩

theorem tickAll_entry {s : Supervisor σ} {index : ℕ} {e : Entry σ} (held : s.entries[index]? = some e) :
    ∃ next, s.tickAll.2.1.entries[index]? = some next ∧
      Ticked s.maxRestarts e next (callsAt index s.tickAll.2.2) := by
  obtain ⟨entries, calls⟩ := tickAll_at s index
  rw [held] at entries calls
  refine ⟨_, entries, ?_⟩
  rw [calls]
  exact tickEntry_ticked _ _ _ _

theorem tickAll_none {s : Supervisor σ} {index : ℕ} (none : s.entries[index]? = none) :
    s.tickAll.2.1.entries[index]? = Option.none ∧ callsAt index s.tickAll.2.2 = [] := by
  obtain ⟨entries, calls⟩ := tickAll_at s index
  rw [none] at entries calls
  exact ⟨entries, calls⟩

end Supervisor

end KaiOs.Node
