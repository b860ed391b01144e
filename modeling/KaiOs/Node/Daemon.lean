import KaiOs.Lib.Format
import KaiOs.Node.Audit
import KaiOs.Node.Driven
import KaiOs.Node.Shutdown

/-! `run` of `node/src/main.rs`, from the configuration file to the exit code, over any implementation
of the subsystems. -/
namespace KaiOs.Node
open Visits Supervisor ShutdownCoordinator

def ConfigError.display : ConfigError → String
  | .read e => s!"config read failed: {e}"
  | .parse e => s!"config parse failed: {e}"
  | .validation e => s!"config validation failed: {e}"

namespace NodeConfig

/-- `parse` is the derived reader. -/
def fromJson (parse : String → Except String NodeConfig) (json : String) : Except ConfigError NodeConfig := do
  let cfg ← (parse json).mapError .parse
  cfg.validate
  return cfg

def fromFile (parse : String → Except String NodeConfig) (file : Except String String) :
    Except ConfigError NodeConfig := do
  let raw ← file.mapError .read
  fromJson parse raw

/-- What the loop of `run` registers, by what makes a subsystem of a known name. -/
def made {σ : Type} (make : String → σ) (c : NodeConfig) : List σ :=
  c.enabledSubsystems.filterMap fun name => (knownSubsystems.find? fun s => s = name).map make

end NodeConfig

/-- `node/src/lib.rs` -/
def ensureNotRoot (allowRoot : Bool) (euid : UInt32) : Except String Unit :=
  if euid = 0 && ! allowRoot then
    .error "REFUSING BOOT: running as root (euid=0) and allow_root=false (fail-closed, KAI-CORE-RUNTIME-001 §3)"
  else .ok ()

def StubSubsystem.new (name : String) : StubSubsystem := ⟨name, 0, 0, false, 0⟩

/-- `to_string_pretty` on the names of a report. -/
def prettyNames : List String → String
  | [] => "[]"
  | names => "[\n    " ++ String.intercalate ",\n    " (names.map Format.string.codec.text) ++ "\n  ]"

def ShutdownReport.toJson (r : ShutdownReport) : String :=
  "\x7b\n  \"stopped_in_order\": " ++ prettyNames r.stoppedInOrder ++ ",\n  \"forced\": " ++
    prettyNames r.forced ++ ",\n  \"clean\": " ++ toString r.clean ++ "\n\x7d"

/-- What a process meets: its argument, the files and their reader, its user, the directory of its log,
whether it can install its handler, and the passes of the loop up to the moment looked at, in which a
signal may have come. -/
structure Host where
  arg : Option String
  read : String → Except String String
  parse : String → Except String NodeConfig
  euid : UInt32
  makeDir : String → Except String Unit
  handler : Bool
  passes : ℕ
  signal : Bool

/-- A signal has come that the process learns of. -/
def Host.Signalled (host : Host) : Prop := host.handler = true ∧ host.signal = true

theorem signalled_iff {host : Host} : (host.handler && host.signal) = true ↔ host.Signalled := Bool.and_eq_true_iff

/-- Where a process is: an `expect` has failed, it is in its loop, or it has ended with a code and a last
line. -/
inductive Outcome (σ : Type) where
  | panicked
  | serving (d : Daemon σ) (events : List Event)
  | exited (code : ℕ) (line : String) (d : Option (Daemon σ)) (events : List Event)

namespace Daemon
variable {σ : Type} [Subsystem σ]

/-- The loop, for a number of passes. -/
def loop (tickMs : UInt64) : ℕ → Daemon σ → Daemon σ × List Event
  | 0, d => (d, [])
  | n + 1, d =>
      let (next, _, events) := d.pass
      let (last, later) := loop tickMs n next
      (last, .slept tickMs :: events ++ later)

/-- What `run` does behind the loop. -/
def drain (d : Daemon σ) : ShutdownReport × Daemon σ × List Event :=
  let lc := (d.lc.transition .shutdown).2
  let (report, sup, events) := shutdownAll d.sup
  let line := report.toJson.map fun c => if c = '\n' then ' ' else c
  (report, ⟨sup, (lc.transition .stopped).2⟩,
    .recorded "lifecycle" "-> Shutdown" :: events ++
      [.recorded "shutdown" line, .recorded "lifecycle" "Shutdown -> Stopped"])

def opening (host : Host) (cfg : NodeConfig) : List Event :=
  [.recorded "daemon" s!"boot: node={cfg.nodeName} euid={host.euid}", .recorded "lifecycle" "Init -> Boot"]

/-- What `run` does for an accepted configuration, once it has a log. -/
def serve (make : String → σ) (host : Host) (cfg : NodeConfig) : Outcome σ :=
  match Lifecycle.new.transition .boot with
  | (.error _, _) => .panicked
  | (.ok _, lc) =>
      match (registered cfg.maxRestarts cfg.restartBackoffMs (cfg.made make)).startAll with
      | (.error e, sup, events) =>
          let lc := ((lc.transition .shutdown).2.transition .stopped).2
          .exited 1 s!"[kai-os-node] BOOT FAILED: {e.text}" (some ⟨sup, lc⟩)
            (opening host cfg ++ events ++ [.recorded "daemon" s!"BOOT FAILED: {e.text}",
              .recorded "lifecycle" "Boot -> Shutdown (boot failed)"])
      | (.ok (), sup, started) =>
          match lc.transition .running with
          | (.error _, _) => .panicked
          | (.ok _, lc) =>
              let unheard := if host.handler then [] else [.recorded "daemon" "WARN: signal handler not installed"]
              let (d, passed) := loop cfg.tickIntervalMs host.passes ⟨sup, lc⟩
              let booted := opening host cfg ++ started ++ [.recorded "lifecycle" "Boot -> Running"]
              let events := booted ++ unheard ++ passed
              -- without its handler the process never learns of a signal
              if host.handler && host.signal then
                let (report, d, drained) := d.drain
                let stopped := report.stoppedInOrder.length
                .exited 0 s!"[kai-os-node] stopped: {stopped} stopped cleanly, {report.forced.length} forced" (some d)
                  (events ++ .recorded "daemon" "shutdown requested (signal)" :: drained)
              else .serving d events

def run (make : String → σ) (host : Host) : Outcome σ :=
  match NodeConfig.fromFile host.parse (host.read (host.arg.getD "kai-os.json")) with
  | .error e => .exited 2 s!"[kai-os-node] BOOT REFUSED: {e.display}" none []
  | .ok cfg =>
      match ensureNotRoot cfg.allowRoot host.euid with
      | .error reason => .exited 2 s!"[kai-os-node] {reason}" none []
      | .ok () =>
          match host.makeDir cfg.dataDir with
          | .error e => .exited 2 s!"[kai-os-node] audit init failed: {e}" none []
          | .ok () => serve make host cfg

/-! ## What the log says of the lifecycle -/

def written : Event → Option (String × String)
  | .recorded kind detail => some (kind, detail)
  | .called _ _ _ | .slept _ => none

/-- The details that are written under a kind. -/
def linesOf (kind : String) (events : List Event) : List String :=
  ((events.filterMap written).filter fun line => line.1 = kind).map Prod.snd

/-- What is written at all is written under the kind. -/
def OnlyUnder (kind : String) (events : List Event) : Prop := ∀ k detail, .recorded k detail ∈ events → k = kind

theorem linesOf_append (kind : String) (events more : List Event) :
    linesOf kind (events ++ more) = linesOf kind events ++ linesOf kind more := by
  rw [linesOf, List.filterMap_append, List.filter_append, List.map_append]
  rfl

@[simp] theorem linesOf_nil (kind : String) : linesOf kind [] = [] := rfl

@[simp] theorem linesOf_recorded (kind k detail : String) (events : List Event) :
    linesOf kind (.recorded k detail :: events) =
      if k = kind then detail :: linesOf kind events else linesOf kind events := by
  by_cases same : k = kind <;> simp [linesOf, written, same]

@[simp] theorem linesOf_slept (kind : String) (ms : UInt64) (events : List Event) :
    linesOf kind (.slept ms :: events) = linesOf kind events := rfl

theorem linesOf_other {kind other : String} {events : List Event} (only : OnlyUnder other events)
    (apart : other ≠ kind) : linesOf kind events = [] := by
  rw [linesOf, List.map_eq_nil_iff, List.filter_eq_nil_iff]
  intro line member
  obtain ⟨event, inside, shown⟩ := List.mem_filterMap.mp member
  cases event with
  | recorded k detail =>
      cases shown
      simpa [only k detail inside] using apart
  | called | slept => cases shown

theorem onlyUnder_append {kind : String} {events more : List Event} :
    OnlyUnder kind (events ++ more) ↔ OnlyUnder kind events ∧ OnlyUnder kind more := by
  simp only [OnlyUnder, List.mem_append, or_imp, forall_and]

@[simp] theorem onlyUnder_nil (kind : String) : OnlyUnder kind [] := by simp [OnlyUnder]

@[simp] theorem onlyUnder_called (kind : String) (index : ℕ) (method : Method) (ok : Bool) (events : List Event) :
    OnlyUnder kind (.called index method ok :: events) ↔ OnlyUnder kind events := by simp [OnlyUnder]

@[simp] theorem onlyUnder_slept (kind : String) (ms : UInt64) (events : List Event) :
    OnlyUnder kind (.slept ms :: events) ↔ OnlyUnder kind events := by simp [OnlyUnder]

@[simp] theorem onlyUnder_recorded (kind k detail : String) (events : List Event) :
    OnlyUnder kind (.recorded k detail :: events) ↔ k = kind ∧ OnlyUnder kind events := by
  simp only [OnlyUnder, List.mem_cons, Event.recorded.injEq, or_imp, forall_and, and_imp]
  exact and_congr_left fun _ => ⟨fun same => same k detail rfl rfl, fun same _ _ here _ => here.trans same⟩

theorem startFrom_only {index : ℕ} {es started : List (Entry σ)} {result : Except SubsystemError Unit}
    {events : List Event} (h : startFrom index es = (result, started, events)) : OnlyUnder "supervisor" events := by
  induction es generalizing index started events with
  | nil =>
      cases h
      exact onlyUnder_nil _
  | cons e es ih =>
      obtain ⟨err, -, -, -, rfl⟩ | ⟨-, rest, later, goes, -, rfl⟩ := startFrom_cases h
      · simp
      · simpa using ih goes

omit [Subsystem σ] in
/-- The loops over the entries write what their bodies write. -/
theorem visit_only {kind : String} {f : ℕ → Entry σ → Entry σ × List Event}
    (body : ∀ index e, OnlyUnder kind (f index e).2) (index : ℕ) (es : List (Entry σ)) :
    OnlyUnder kind (visitFrom f index es).2 ∧ OnlyUnder kind (visitBack f index es).2 := by
  induction es generalizing index with
  | nil => exact ⟨onlyUnder_nil kind, onlyUnder_nil kind⟩
  | cons e es ih =>
      obtain ⟨forth, back⟩ := ih (index + 1)
      exact ⟨onlyUnder_append.mpr ⟨body index e, forth⟩, onlyUnder_append.mpr ⟨back, body index e⟩⟩

theorem startAll_only (s : Supervisor σ) : OnlyUnder "supervisor" s.startAll.2.2 := by
  rw [startAll]
  cases run : startFrom 0 s.entries with
  | mk result others =>
      have started := startFrom_only run
      cases result with
      | ok => exact started
      | error err =>
          refine onlyUnder_append.mpr ⟨started, (visit_only ?_ 0 _).2⟩
          intro index e
          rw [stopEntry]
          split <;> simp

theorem tickAll_only (s : Supervisor σ) : OnlyUnder "supervisor" s.tickAll.2.2 := by
  refine (visit_only ?_ 0 s.entries).1
  intro index e
  rw [tickEntry]
  split
  · simp
  · split
    · simp
    · dsimp only
      split
      · split <;> simp
      · simp

theorem stopSubsystem_only (s : Supervisor σ) (name : String) :
    OnlyUnder "supervisor" (s.stopSubsystem name).2.2 := by
  rw [stopSubsystem]
  split
  · split <;> simp
  · simp

theorem shutdownAll_only (s : Supervisor σ) : OnlyUnder "supervisor" (shutdownAll s).2.2 := by
  have drained (names : List String) (d : Draining σ) (so_far : OnlyUnder "supervisor" d.events) :
      OnlyUnder "supervisor" (names.foldl drainStep d).events := by
    induction names generalizing d with
    | nil => exact so_far
    | cons name names ih =>
        refine ih _ ?_
        rw [(drainStep_cases d name).1]
        exact onlyUnder_append.mpr ⟨so_far, stopSubsystem_only d.sup name⟩
  exact drained s.shutdownOrder _ (onlyUnder_nil _)

/-- What the log says about a transition. -/
def label : State × State → Option String
  | (.init, .boot) => some "Init -> Boot"
  | (.boot, .running) => some "Boot -> Running"
  | (.boot, .shutdown) => some "Boot -> Shutdown (boot failed)"
  | (.running, .degraded) => some "Running -> Degraded (unhealthy subsystem)"
  | (.degraded, .running) => some "Degraded -> Running (recovered)"
  | (.running, .shutdown) | (.degraded, .shutdown) => some "-> Shutdown"
  | (.shutdown, .stopped) => some "Shutdown -> Stopped"
  | _ => none

/-- A path in the table of transitions. -/
def Walk : State → List (State × State) → State → Prop
  | start, [], target => start = target
  | start, (a, b) :: rest, target => start = a ∧ canTransition a b = true ∧ Walk b rest target

/-- The history is a path to where the lifecycle is, and the log tells it. -/
structure Accounts (lc : Lifecycle) (events : List Event) : Prop where
  path : Walk .init lc.history lc.current
  told : lc.history.map label = (linesOf "lifecycle" events).map some

theorem walk_concat {start mid target : State} {steps : List (State × State)} (path : Walk start steps mid)
    (legal : canTransition mid target = true) : Walk start (steps ++ [(mid, target)]) target := by
  induction steps generalizing start with
  | nil =>
      obtain rfl := path
      exact ⟨rfl, legal, rfl⟩
  | cons step steps ih => exact ⟨path.1, path.2.1, ih path.2.2⟩

theorem Accounts.quiet {lc : Lifecycle} {events more : List Event} (accounts : Accounts lc events)
    (nothing : linesOf "lifecycle" more = []) : Accounts lc (events ++ more) := by
  refine ⟨accounts.path, ?_⟩
  rw [linesOf_append, nothing, List.append_nil]
  exact accounts.told

theorem transition_legal {lc : Lifecycle} {target : State} (legal : canTransition lc.current target = true) :
    lc.transition target = (.ok target, ⟨target, lc.history ++ [(lc.current, target)]⟩) := by
  rw [Lifecycle.transition, legal, Bool.not_true, if_neg Bool.false_ne_true]

theorem Accounts.step {lc : Lifecycle} {events more : List Event} {target : State} (line : String)
    (accounts : Accounts lc events) (legal : canTransition lc.current target = true)
    (named : label (lc.current, target) = some line) (lines : linesOf "lifecycle" more = [line]) :
    Accounts (lc.transition target).2 (events ++ more) := by
  rw [transition_legal legal]
  refine ⟨walk_concat accounts.path legal, ?_⟩
  rw [List.map_append, accounts.told, linesOf_append, lines, List.map_append, List.map_singleton, named]
  rfl

theorem pass_accounts {d : Daemon σ} {events : List Event} (accounts : Accounts d.lc events) :
    Accounts d.pass.1.lc (events ++ d.pass.2.2) := by
  have silent : linesOf "lifecycle" d.sup.tickAll.2.2 = [] := linesOf_other (tickAll_only d.sup) (by decide)
  rw [pass]
  cases ticked : d.sup.tickAll with
  | mk health rest =>
      obtain ⟨sup, happened⟩ := rest
      rw [ticked] at silent
      have still : Accounts d.lc (events ++ happened) := accounts.quiet silent
      cases health with
      | healthy =>
          dsimp only
          split
          · next degraded =>
              rw [← List.append_assoc]
              exact still.step "Degraded -> Running (recovered)" (by rw [degraded]; rfl) (by rw [degraded]; rfl) rfl
          · exact still
      | degraded | unhealthy =>
          dsimp only
          split
          · next running =>
              rw [← List.append_assoc]
              exact still.step "Running -> Degraded (unhealthy subsystem)" (by rw [running]; rfl)
                (by rw [running]; rfl) rfl
          · exact still

theorem pass_serves {d : Daemon σ} (state : d.lc.current = .running ∨ d.lc.current = .degraded) :
    d.pass.1.lc.current = .running ∨ d.pass.1.lc.current = .degraded := by
  rw [(pass_follows state).2.1]
  split
  · exact .inl rfl
  · exact .inr rfl

/-- The loop with its sleeps goes through the passes. -/
theorem loop_passes (tickMs : UInt64) (n : ℕ) (d : Daemon σ) : (loop tickMs n d).1 = (d.passes n).1 := by
  have front (n : ℕ) (d : Daemon σ) : (d.passes (n + 1)).1 = (d.pass.1.passes n).1 := by
    induction n with
    | zero => rfl
    | succ n ih =>
        rw [passes, ih]
        rfl
  induction n generalizing d with
  | zero => rfl
  | succ n ih =>
      rw [front, ← ih]
      rfl

/-- A process is where its start and its passes bring it, drained behind a signal. -/
theorem serve_boot (make : String → σ) (host : Host) (cfg : NodeConfig) :
    match boot cfg.maxRestarts cfg.restartBackoffMs (cfg.made make) with
    | none => ∃ line last events, serve make host cfg = .exited 1 line last events
    | some d =>
        (host.Signalled → ∃ line events,
          serve make host cfg = .exited 0 line (some (d.passes host.passes).1.drain.2.1) events) ∧
        (¬ host.Signalled → ∃ events, serve make host cfg = .serving (d.passes host.passes).1 events) := by
  have first : Lifecycle.new.transition .boot = (.ok .boot, ⟨.boot, [(.init, .boot)]⟩) := rfl
  have legal : Lifecycle.transition ⟨.boot, [(.init, .boot)]⟩ .running =
      (.ok .running, ⟨.running, [(.init, .boot), (.boot, .running)]⟩) := rfl
  rw [boot, serve, first]
  dsimp only
  cases (registered cfg.maxRestarts cfg.restartBackoffMs (cfg.made make)).startAll with
  | mk result others =>
      cases result with
      | error e => exact ⟨_, _, _, rfl⟩
      | ok =>
          rw [legal]
          dsimp only
          rw [← loop_passes cfg.tickIntervalMs]
          refine ⟨fun heard => ?_, fun silent => ?_⟩
          · rw [if_pos (signalled_iff.mpr heard)]
            exact ⟨_, _, rfl⟩
          · rw [if_neg (silent ∘ signalled_iff.mp)]
            exact ⟨_, rfl⟩

/-- So a process in its loop runs exactly if all its subsystems do, where these are healthy while started. -/
theorem serving_agrees (laws : HealthyWhileStarted σ) {make : String → σ} {host : Host} {cfg : NodeConfig}
    {d : Daemon σ} {events : List Event} (serves : serve make host cfg = .serving d events) : d.Agrees := by
  have started := serve_boot make host cfg
  cases booted : boot cfg.maxRestarts cfg.restartBackoffMs (cfg.made make) with
  | none =>
      rw [booted] at started
      obtain ⟨line, last, other, exits⟩ := started
      exact nomatch serves.symm.trans exits
  | some first =>
      rw [booted] at started
      by_cases heard : host.Signalled
      · obtain ⟨line, other, exits⟩ := started.1 heard
        exact nomatch serves.symm.trans exits
      · obtain ⟨other, goes⟩ := started.2 heard
        cases serves.symm.trans goes
        exact (agrees_passes laws (agrees_boot laws booted) host.passes).1

theorem loop_accounts (tickMs : UInt64) (n : ℕ) {d : Daemon σ} {events : List Event} (accounts : Accounts d.lc events)
    (state : d.lc.current = .running ∨ d.lc.current = .degraded) :
    Accounts (loop tickMs n d).1.lc (events ++ (loop tickMs n d).2) ∧
      ((loop tickMs n d).1.lc.current = .running ∨ (loop tickMs n d).1.lc.current = .degraded) := by
  induction n generalizing d events with
  | zero => exact ⟨accounts.quiet rfl, state⟩
  | succ n ih =>
      have slept : Accounts d.lc (events ++ [.slept tickMs]) := accounts.quiet rfl
      obtain ⟨later, still⟩ := ih (pass_accounts slept) (pass_serves state)
      refine ⟨?_, still⟩
      simpa [loop] using later

theorem drain_accounts {d : Daemon σ} {events : List Event} (accounts : Accounts d.lc events)
    (state : d.lc.current = .running ∨ d.lc.current = .degraded) :
    Accounts d.drain.2.1.lc (events ++ d.drain.2.2) ∧ d.drain.2.1.lc.current = .stopped := by
  have silent : linesOf "lifecycle" (shutdownAll d.sup).2.2 = [] :=
    linesOf_other (shutdownAll_only d.sup) (by decide)
  have legal : canTransition d.lc.current .shutdown = true ∧
      label (d.lc.current, .shutdown) = some "-> Shutdown" := by
    obtain running | degraded := state
    · rw [running]
      exact ⟨rfl, rfl⟩
    · rw [degraded]
      exact ⟨rfl, rfl⟩
  have target : (d.lc.transition .shutdown).2.current = .shutdown := by rw [transition_legal legal.1]
  have draining : Accounts (d.lc.transition .shutdown).2
      (events ++ .recorded "lifecycle" "-> Shutdown" :: (shutdownAll d.sup).2.2) :=
    accounts.step "-> Shutdown" legal.1 legal.2 (by rw [linesOf_recorded, if_pos rfl, silent])
  have legal' : canTransition (d.lc.transition .shutdown).2.current .stopped = true := by
    rw [target]
    rfl
  refine ⟨?_, ?_⟩
  · rw [drain]
    dsimp only
    rw [← List.append_assoc]
    exact draining.step "Shutdown -> Stopped" legal' (by rw [target]; rfl) (by simp)
  · rw [drain, transition_legal legal']

/-! ## What a process leaves behind -/

theorem callsAt_calls (index : ℕ) (events : List Event) :
    callsAt index events = ((calls events).filter fun c => c.1 = index).map Prod.snd := by
  induction events with
  | nil => rfl
  | cons event events ih =>
      cases event with
      | called i method ok => by_cases same : i = index <;> simp [same, ih]
      | slept | recorded => exact ih

omit [Subsystem σ] in
theorem conducts_idle (es : List (Entry σ)) {events : List Event} (idle : calls events = []) :
    Conducts es events es := by
  intro index
  rw [callsAt_calls, idle]
  exact ⟨trivial, rfl⟩

theorem pass_conducts (d : Daemon σ) : Conducts d.sup.entries d.pass.2.2 d.pass.1.sup.entries := by
  have ticked := tickAll_conducts d.sup
  rw [pass]
  cases tick : d.sup.tickAll with
  | mk health rest =>
      rw [tick] at ticked
      have noted (line : String) : Conducts d.sup.entries (rest.2 ++ [.recorded "lifecycle" line]) rest.1.entries :=
        ticked.trans (conducts_idle _ rfl)
      cases health with
      | healthy | degraded | unhealthy =>
          dsimp only
          split
          · exact noted _
          · exact ticked

theorem loop_conducts (tickMs : UInt64) (n : ℕ) (d : Daemon σ) :
    Conducts d.sup.entries (loop tickMs n d).2 (loop tickMs n d).1.sup.entries := by
  induction n generalizing d with
  | zero => exact conducts_idle _ rfl
  | succ n ih =>
      have slept : Conducts d.sup.entries [.slept tickMs] d.sup.entries := conducts_idle _ rfl
      exact (slept.trans (pass_conducts d)).trans (ih d.pass.1)

theorem shutdownAll_conducts (s : Supervisor σ) :
    Conducts s.entries (shutdownAll s).2.2 (shutdownAll s).2.1.entries := by
  have drained (names : List String) (d : Draining σ) (so_far : Conducts s.entries d.events d.sup.entries) :
      Conducts s.entries (names.foldl drainStep d).events (names.foldl drainStep d).sup.entries := by
    induction names generalizing d with
    | nil => exact so_far
    | cons name names ih =>
        obtain ⟨events, sup, -⟩ := drainStep_cases d name
        refine ih _ ?_
        rw [events, sup]
        exact so_far.trans (stopSubsystem_conducts d.sup name)
  exact drained s.shutdownOrder _ (conducts_idle _ rfl)

theorem drain_conducts (d : Daemon σ) :
    Conducts d.sup.entries d.drain.2.2 d.drain.2.1.sup.entries ∧
      ∀ e ∈ d.drain.2.1.sup.entries, e.running = false := by
  obtain ⟨-, left, -⟩ := shutdownAll_picks d.sup
  have announced : Conducts d.sup.entries [.recorded "lifecycle" "-> Shutdown"] d.sup.entries := conducts_idle _ rfl
  refine ⟨(announced.trans (shutdownAll_conducts d.sup)).trans (conducts_idle _ rfl), up_eq_nil.mp (left.trans ?_)⟩
  exact (Picks.picked_perm (List.reverse_perm _)).2

omit [Subsystem σ] in
theorem serves_idle {es : List (Entry σ)} (idle : ∀ e ∈ es, e.running = false) (index : ℕ) :
    serves es index = false := by
  rw [serves]
  cases held : es[index]? with
  | none => rfl
  | some e => exact idle e (List.mem_of_getElem? held)

omit [Subsystem σ] in
theorem registered_conducts (maxRestarts : UInt32) (backoffMs : UInt64) (subsystems : List σ) :
    Conducts [] [] (registered maxRestarts backoffMs subsystems).entries := by
  refine conducts_quiet fun index => serves_idle ?_ index
  rw [registered_entries, List.forall_mem_map]
  exact fun _ _ => rfl

/-- A configuration that `run` goes on with. -/
structure Admits (host : Host) (cfg : NodeConfig) : Prop where
  loaded : NodeConfig.fromFile host.parse (host.read (host.arg.getD "kai-os.json")) = .ok cfg
  user : host.euid = 0 → cfg.allowRoot = true
  log : host.makeDir cfg.dataDir = .ok ()

theorem ensureNotRoot_ok (allowRoot : Bool) (euid : UInt32) :
    ensureNotRoot allowRoot euid = .ok () ↔ (euid = 0 → allowRoot = true) := by
  rw [ensureNotRoot]
  split
  · next root =>
      refine iff_of_false (by simp) ?_
      simp_all
  · next other =>
      refine iff_of_true rfl ?_
      simp_all

theorem run_cases (make : String → σ) (host : Host) :
    (∃ cfg, Admits host cfg ∧ run make host = serve make host cfg) ∨
      (∀ cfg, ¬ Admits host cfg) ∧ ∃ line, run make host = .exited 2 line none [] := by
  rw [run]
  cases loaded : NodeConfig.fromFile host.parse (host.read (host.arg.getD "kai-os.json")) with
  | error e =>
      refine .inr ⟨fun cfg admits => ?_, _, rfl⟩
      cases loaded.symm.trans admits.loaded
  | ok cfg =>
      cases user : ensureNotRoot cfg.allowRoot host.euid with
      | error reason =>
          refine .inr ⟨fun other admits => ?_, s!"[kai-os-node] {reason}", by simp [user]⟩
          cases loaded.symm.trans admits.loaded
          cases user.symm.trans ((ensureNotRoot_ok _ _).mpr admits.user)
      | ok =>
          cases log : host.makeDir cfg.dataDir with
          | error e =>
              refine .inr ⟨fun other admits => ?_, s!"[kai-os-node] audit init failed: {e}", by simp [user, log]⟩
              cases loaded.symm.trans admits.loaded
              cases log.symm.trans admits.log
          | ok => exact .inl ⟨cfg, ⟨loaded, (ensureNotRoot_ok _ _).mp user, log⟩, by simp [user, log]⟩

theorem Admits.valid {host : Host} {cfg : NodeConfig} (admits : Admits host cfg) : cfg.validate = .ok () := by
  have loaded := admits.loaded
  rw [NodeConfig.fromFile] at loaded
  cases file : host.read (host.arg.getD "kai-os.json") with
  | error e =>
      rw [file] at loaded
      cases loaded
  | ok raw =>
      rw [file] at loaded
      change NodeConfig.fromJson host.parse raw = .ok cfg at loaded
      rw [NodeConfig.fromJson] at loaded
      cases parsed : host.parse raw with
      | error e =>
          rw [parsed] at loaded
          cases loaded
      | ok read =>
          cases checked : read.validate with
          | error e =>
              simp [parsed, checked, Except.mapError, bind, Except.bind] at loaded
          | ok =>
              simp [parsed, checked, Except.mapError, bind, Except.bind, pure, Except.pure] at loaded
              rw [← loaded]
              exact checked

omit [Subsystem σ] in
theorem made_of_validate {cfg : NodeConfig} (valid : cfg.validate = .ok ()) (make : String → σ) :
    cfg.made make = cfg.enabledSubsystems.map make := by
  have through : cfg.made make = cfg.subsystems.map fun stub => make stub.name := by
    rw [NodeConfig.subsystems, List.map_filterMap]
    refine List.filterMap_congr fun name _ => ?_
    rw [Option.map_map]
    rfl
  rw [through, NodeConfig.subsystems_of_validate valid, List.map_map]
  rfl

/-- What is known of a daemon with its events. -/
structure Sound (d : Daemon σ) (events : List Event) : Prop where
  accounts : Accounts d.lc events
  conducts : Conducts [] events d.sup.entries

theorem startAll_fails (maxRestarts : UInt32) (backoffMs : UInt64) (subsystems : List σ) :
    match (registered maxRestarts backoffMs subsystems).startAll with
    | (.ok (), _, _) => ∀ s ∈ subsystems, (Subsystem.start s).1.isOk = true
    | (.error _, sup, _) => (∃ s ∈ subsystems, (Subsystem.start s).1.isOk = false) ∧
        ∀ e ∈ sup.entries, e.running = false := by
  have entries := registered_entries maxRestarts backoffMs subsystems
  rw [startAll]
  cases run : startFrom 0 (registered maxRestarts backoffMs subsystems).entries with
  | mk result others =>
      obtain ⟨started, events⟩ := others
      cases result with
      | ok =>
          obtain ⟨-, all⟩ := startFrom_ok run
          rw [entries, List.forall_mem_map] at all
          exact all
      | error err =>
          obtain ⟨front, failing, behind, split, -, failed, -⟩ := startFrom_error run
          have inside : failing ∈ (registered maxRestarts backoffMs subsystems).entries := by rw [split]; simp
          rw [entries] at inside
          obtain ⟨s, member, rfl⟩ := List.mem_map.mp inside
          have failed : (Subsystem.start s).1 = .error err := failed
          exact ⟨⟨s, member, by rw [failed]; rfl⟩, (stopBack_forall 0 started).1⟩

theorem serve_cases (make : String → σ) (host : Host) (cfg : NodeConfig) :
    (∃ d events, serve make host cfg = .serving d events ∧ (∀ s ∈ cfg.made make, (Subsystem.start s).1.isOk = true) ∧
      ¬ host.Signalled ∧ Sound d events ∧ (d.lc.current = .running ∨ d.lc.current = .degraded)) ∨
    (∃ line d events, serve make host cfg = .exited 0 line (some d) events ∧
      (∀ s ∈ cfg.made make, (Subsystem.start s).1.isOk = true) ∧ host.Signalled ∧ Sound d events ∧
      d.lc.current = .stopped ∧ ∀ e ∈ d.sup.entries, e.running = false) ∨
    ∃ line d events, serve make host cfg = .exited 1 line (some d) events ∧
      (∃ s ∈ cfg.made make, (Subsystem.start s).1.isOk = false) ∧
      d.lc = ⟨.stopped, [(.init, .boot), (.boot, .shutdown), (.shutdown, .stopped)]⟩ ∧
      linesOf "lifecycle" events = ["Init -> Boot", "Boot -> Shutdown (boot failed)"] ∧
      Conducts [] events d.sup.entries ∧ ∀ e ∈ d.sup.entries, e.running = false := by
  have silent : linesOf "lifecycle"
      (registered cfg.maxRestarts cfg.restartBackoffMs (cfg.made make)).startAll.2.2 = [] :=
    linesOf_other (startAll_only _) (by decide)
  have conducts := (registered_conducts cfg.maxRestarts cfg.restartBackoffMs (cfg.made make)).trans
    (startAll_conducts (registered cfg.maxRestarts cfg.restartBackoffMs (cfg.made make)))
  have outcome := startAll_fails cfg.maxRestarts cfg.restartBackoffMs (cfg.made make)
  have boot : Lifecycle.new.transition .boot = (.ok .boot, ⟨.boot, [(.init, .boot)]⟩) := rfl
  have opened : Conducts [] (opening host cfg) ([] : List (Entry σ)) := conducts_idle _ rfl
  rw [serve, boot]
  dsimp only
  cases run : (registered cfg.maxRestarts cfg.restartBackoffMs (cfg.made make)).startAll with
  | mk result others =>
      obtain ⟨sup, started⟩ := others
      rw [run] at silent conducts outcome
      cases result with
      | error e =>
          obtain ⟨fails, down⟩ := outcome
          refine .inr (.inr ⟨_, _, _, rfl, fails, rfl, ?_, ?_, down⟩)
          · simp [opening, linesOf_append, silent]
          · exact (opened.trans conducts).trans (conducts_idle _ rfl)
      | ok =>
          have legal : Lifecycle.transition ⟨.boot, [(.init, .boot)]⟩ .running =
              (.ok .running, ⟨.running, [(.init, .boot), (.boot, .running)]⟩) := rfl
          have begun (warned : List Event) (quiet : linesOf "lifecycle" warned = []) (idle : calls warned = []) :
              Sound ⟨sup, ⟨.running, [(.init, .boot), (.boot, .running)]⟩⟩
                (opening host cfg ++ started ++ [.recorded "lifecycle" "Boot -> Running"] ++ warned) := by
            refine ⟨⟨⟨rfl, rfl, rfl, rfl, rfl⟩, ?_⟩,
              ((opened.trans conducts).trans (conducts_idle _ rfl)).trans (conducts_idle _ idle)⟩
            simp [opening, linesOf_append, silent, quiet, label]
          have warned : Sound ⟨sup, ⟨.running, [(.init, .boot), (.boot, .running)]⟩⟩ _ :=
            begun (if host.handler then [] else [.recorded "daemon" "WARN: signal handler not installed"])
              (by split <;> rfl) (by split <;> rfl)
          obtain ⟨accounts, state⟩ := loop_accounts cfg.tickIntervalMs host.passes warned.accounts (.inl rfl)
          have passed := warned.conducts.trans (loop_conducts cfg.tickIntervalMs host.passes
            ⟨sup, ⟨.running, [(.init, .boot), (.boot, .running)]⟩⟩)
          rw [legal]
          dsimp only
          split
          · next heard =>
            have asked : Accounts _ (_ ++ [.recorded "daemon" "shutdown requested (signal)"]) := accounts.quiet rfl
            obtain ⟨ended, stopped⟩ := drain_accounts asked state
            obtain ⟨drained, down⟩ := drain_conducts (loop cfg.tickIntervalMs host.passes
              ⟨sup, ⟨.running, [(.init, .boot), (.boot, .running)]⟩⟩).1
            have noted (es : List (Entry σ)) : Conducts es [.recorded "daemon" "shutdown requested (signal)"] es :=
              conducts_idle _ rfl
            have all := (passed.trans (noted _)).trans drained
            rw [List.append_assoc] at ended all
            exact .inr (.inl ⟨_, _, _, rfl, outcome, signalled_iff.mp heard, ⟨ended, all⟩, stopped, down⟩)
          · next unheard =>
            exact .inl ⟨_, _, rfl, outcome, unheard ∘ signalled_iff.mpr, ⟨accounts, passed⟩, state⟩

section
variable {Path : Type} [DecidableEq Path] (X : AuditExternals)

/-- The log of a process, whose writes end as told. -/
def auditLog (path : Path) (files : Files Path) (io : ℕ → SinkIo) (events : List Event) : AuditLogger Path :=
  (AuditLogger.recordAll X ⟨[], some path⟩ files
    ((events.filterMap written).mapIdx fun i line => ⟨io i, line.1, line.2⟩)).1

def details (kind : String) (a : AuditLogger Path) : List String :=
  (a.events.filter fun e => e.kind = kind).map (·.detail)

theorem details_auditLog (path : Path) (files : Files Path) (kind : String) (events : List Event) :
    details kind (auditLog X path files (fun _ => .ok) events) = linesOf kind events := by
  let pick (fields : List String) : Option String := if fields.head? = some kind then fields[1]? else none
  have shown (es : List AuditEvent) :
      (es.filter fun e => e.kind = kind).map (·.detail) = (es.map AuditEvent.fields).filterMap pick := by
    induction es with
    | nil => rfl
    | cons e es ih => by_cases same : e.kind = kind <;> simp [pick, AuditEvent.fields, same, ih]
  have wrote (lines : List (String × String)) : (lines.filter fun line => line.1 = kind).map Prod.snd =
      (lines.map fun line => [line.1, line.2]).filterMap pick := by
    induction lines with
    | nil => rfl
    | cons line lines ih => by_cases same : line.1 = kind <;> simp [pick, same, ih]
  have calls (lines : List (String × String)) : lines.mapIdx (fun _ line => (⟨.ok, line.1, line.2⟩ : RecordCall)) =
      lines.map fun line => ⟨.ok, line.1, line.2⟩ := by
    rw [List.mapIdx_eq_iff]
    intro i
    rw [List.getElem?_map]
  have kept (lines : List (String × String)) :
      (lines.map fun line => (⟨.ok, line.1, line.2⟩ : RecordCall)).filter
          (fun call => AuditLogger.records (⟨[], some path⟩ : AuditLogger Path) call.io) =
        lines.map fun line => ⟨.ok, line.1, line.2⟩ := by
    rw [List.filter_eq_self, List.forall_mem_map]
    intro line member
    rfl
  rw [details, shown, linesOf, wrote, auditLog, AuditLogger.recordAll_fields, calls, kept, List.map_map]
  rfl

theorem verifyChain_auditLog (path : Path) (files : Files Path) (io : ℕ → SinkIo) (events : List Event) :
    (auditLog X path files io events).verifyChain X = true := AuditLogger.verifyChain_recordAll rfl _ _

/-- The history is a path to where the lifecycle is, the log on a disk that takes every line tells it, and
on any disk the log verifies. -/
structure Tells (path : Path) (files : Files Path) (lc : Lifecycle) (events : List Event) : Prop where
  walk : Walk .init lc.history lc.current
  told : lc.history.map label = (details "lifecycle" (auditLog X path files (fun _ => .ok) events)).map some
  verifies : ∀ io, (auditLog X path files io events).verifyChain X = true

theorem tells_of_accounts (path : Path) (files : Files Path) {lc : Lifecycle} {events : List Event}
    (accounts : Accounts lc events) : Tells X path files lc events :=
  ⟨accounts.path, by rw [details_auditLog, accounts.told], fun io => verifyChain_auditLog X path files io events⟩

/-- Whatever its subsystems do, no `expect` of a process fails. It is turned away before anything happens, or its
lifecycle takes legal steps that its audit log tells one by one: with all subsystems started it is running or
degraded until a signal comes, and stopped behind it; where one does not start it is stopped, and the log, which
verifies, misses the last step. -/
theorem daemon_accounts (make : String → σ) (host : Host) (path : Path) (files : Files Path) :
    match run make host with
    | .panicked => False
    | .serving d events => (∃ cfg, Admits host cfg ∧
        ∀ name ∈ cfg.enabledSubsystems, (Subsystem.start (make name)).1.isOk = true) ∧ ¬ host.Signalled ∧
        Tells X path files d.lc events ∧ (d.lc.current = .running ∨ d.lc.current = .degraded)
    | .exited code _ none events => code = 2 ∧ (∀ cfg, ¬ Admits host cfg) ∧ events = []
    | .exited code _ (some d) events => d.lc.current = .stopped ∧ ∃ cfg, Admits host cfg ∧
        (code = 0 ∧ (∀ name ∈ cfg.enabledSubsystems, (Subsystem.start (make name)).1.isOk = true) ∧
            host.Signalled ∧ Tells X path files d.lc events ∨
          code = 1 ∧ (∃ name ∈ cfg.enabledSubsystems, (Subsystem.start (make name)).1.isOk = false) ∧
            d.lc.history = [(.init, .boot), (.boot, .shutdown), (.shutdown, .stopped)] ∧
            details "lifecycle" (auditLog X path files (fun _ => .ok) events) =
              ["Init -> Boot", "Boot -> Shutdown (boot failed)"] ∧
            ∀ io, (auditLog X path files io events).verifyChain X = true) := by
  obtain ⟨cfg, admits, goes⟩ | ⟨refused, line, turned⟩ := run_cases make host
  · have every := made_of_validate admits.valid make
    rw [goes]
    obtain ⟨d, events, at_, fine, silent, sound, state⟩ | ⟨line, d, events, at_, fine, heard, sound, stopped, -⟩ |
        ⟨line, d, events, at_, fails, lc, lines, -, -⟩ := serve_cases make host cfg
    · rw [at_]
      rw [every, List.forall_mem_map] at fine
      exact ⟨⟨cfg, admits, fine⟩, silent, tells_of_accounts X path files sound.accounts, state⟩
    · rw [at_]
      rw [every, List.forall_mem_map] at fine
      exact ⟨stopped, cfg, admits, .inl ⟨rfl, fine, heard, tells_of_accounts X path files sound.accounts⟩⟩
    · rw [at_]
      rw [every] at fails
      obtain ⟨s, member, failed⟩ := fails
      obtain ⟨name, inside, rfl⟩ := List.mem_map.mp member
      refine ⟨by rw [lc], cfg, admits, .inr ⟨rfl, ⟨name, inside, failed⟩, by rw [lc], ?_, fun io => ?_⟩⟩
      · rw [details_auditLog, lines]
      · exact verifyChain_auditLog X path files io events
  · rw [turned]
    exact ⟨rfl, refused, rfl⟩

end

omit [Subsystem σ] in
theorem started_of_conducts {es : List (Entry σ)} {events : List Event} (conducts : Conducts [] events es)
    (index : ℕ) : startedBy events index = serves es index := (conducts index).2

omit [Subsystem σ] in
theorem driven_of_conducts {es : List (Entry σ)} {events : List Event} (conducts : Conducts [] events es) :
    Driven events := driven_of_obeys fun index => (conducts index).1

/-- In a whole life of the process only what is started is ticked or stopped. While it is in its loop the flags
of the supervisor say what is started, and when it ends, in whatever way, nothing is left started. -/
theorem daemon_leaves_nothing_up (make : String → σ) (host : Host) :
    match run make host with
    | .panicked => False
    | .serving d events => Driven events ∧ ∀ index, startedBy events index = d.sup.inService index
    | .exited _ _ d events => Driven events ∧ (∀ index, startedBy events index = false) ∧
        ∀ last ∈ d, ∀ e ∈ last.sup.entries, e.running = false := by
  obtain ⟨cfg, -, goes⟩ | ⟨-, line, turned⟩ := run_cases make host
  · rw [goes]
    obtain ⟨d, events, at_, -, -, sound, -⟩ | ⟨line, d, events, at_, -, -, sound, -, down⟩ |
        ⟨line, d, events, at_, -, -, -, conducts, down⟩ := serve_cases make host cfg
    · rw [at_]
      exact ⟨driven_of_conducts sound.conducts, started_of_conducts sound.conducts⟩
    · rw [at_]
      refine ⟨driven_of_conducts sound.conducts, fun index => ?_, ?_⟩
      · rw [started_of_conducts sound.conducts, serves_idle down]
      · rintro last ⟨⟩
        exact down
    · rw [at_]
      refine ⟨driven_of_conducts conducts, fun index => ?_, ?_⟩
      · rw [started_of_conducts conducts, serves_idle down]
      · rintro last ⟨⟩
        exact down
  · rw [turned]
    have nobody : Conducts [] [] ([] : List (Entry σ)) := conducts_quiet fun _ => rfl
    exact ⟨driven_of_conducts nobody, started_of_conducts nobody, by rintro last ⟨⟩⟩

/-! ## The daemon with its stubs -/

/-- A call of every subsystem. -/
def eachOnce (k : ℕ) (method : Method) : List (ℕ × Method × Bool) := (List.range' 0 k).map fun i => (i, method, true)

theorem callsAt_each {k : ℕ} {method : Method} {events : List Event} (each : (calls events).Perm (eachOnce k method))
    (index : ℕ) : callsAt index events = if index < k then [(method, true)] else [] := by
  have own : (eachOnce k method).filter (fun c => c.1 = index) =
      if index < k then [(index, method, true)] else [] := by
    have picks : ((List.range' 0 k).filter ((fun c : ℕ × Method × Bool => decide (c.1 = index)) ∘
        fun i => (i, method, true))) = (List.range' 0 k).filter (· = index) := rfl
    rw [eachOnce, List.filter_map, picks, List.filter_eq, List.Nodup.count List.nodup_range']
    simp only [List.mem_range'_1, Nat.zero_le, Nat.zero_add, true_and]
    split <;> rfl
  have same := each.filter fun c => c.1 = index
  rw [own] at same
  rw [callsAt_calls]
  split
  · next inside =>
      rw [if_pos inside] at same
      rw [List.perm_singleton.mp same]
      rfl
  · next outside =>
      rw [if_neg outside] at same
      rw [List.perm_nil.mp same]
      rfl

/-- A stub that runs, behind its ticks. -/
def tickedStub (ticks : UInt32) (name : String) : Entry StubSubsystem :=
  ⟨⟨name, 0, 0, true, ticks⟩, 0, .healthy, true⟩

theorem tickAll_stubs (names : List String) (ticks maxRestarts : UInt32) (backoffMs : UInt64) :
    ∃ events, (⟨names.map (tickedStub ticks), maxRestarts, backoffMs⟩ : Supervisor StubSubsystem).tickAll =
        (.healthy, ⟨names.map (tickedStub (ticks + 1)), maxRestarts, backoffMs⟩, events) ∧
      calls events = eachOnce names.length .tick := by
  have visit (index : ℕ) : ∃ events,
      visitFrom (tickEntry maxRestarts backoffMs) index (names.map (tickedStub ticks)) =
        (names.map (tickedStub (ticks + 1)), events) ∧
      calls events = (List.range' index names.length).map fun i => (i, .tick, true) := by
    induction names generalizing index with
    | nil => exact ⟨[], rfl, rfl⟩
    | cons name names ih =>
        obtain ⟨events, visited, made⟩ := ih (index + 1)
        refine ⟨.called index .tick true :: events, ?_, ?_⟩
        · rw [List.map_cons, visitFrom, visited]
          rfl
        · rw [calls_called, made]
          rfl
  obtain ⟨events, visited, made⟩ := visit 0
  refine ⟨events, ?_, made⟩
  rw [tickAll, visited]
  dsimp only
  have well : overall ((names.map (tickedStub (ticks + 1))).map (·.lastHealth)) = .healthy := by
    rw [overall_eq_healthy, List.map_map, List.forall_mem_map]
    exact fun _ _ => rfl
  rw [well]

theorem loop_stubs (names : List String) (maxRestarts : UInt32) (backoffMs tickMs : UInt64) (lc : Lifecycle)
    (running : lc.current = .running) (n : ℕ) (ticks : UInt32) :
    ∃ ended events, loop tickMs n ⟨⟨names.map (tickedStub ticks), maxRestarts, backoffMs⟩, lc⟩ =
        (⟨⟨names.map (tickedStub ended), maxRestarts, backoffMs⟩, lc⟩, events) ∧
      ∀ index, callsAt index events = if index < names.length then List.replicate n (.tick, true) else [] := by
  induction n generalizing ticks with
  | zero => exact ⟨ticks, [], rfl, fun index => by simp⟩
  | succ n ih =>
      obtain ⟨ticked, tick, made⟩ := tickAll_stubs names ticks maxRestarts backoffMs
      obtain ⟨ended, events, rest, each⟩ := ih (ticks + 1)
      have quiet : ¬ lc.current = .degraded := by
        rw [running]
        decide
      refine ⟨ended, .slept tickMs :: ticked ++ events, ?_, fun index => ?_⟩
      · rw [loop, pass]
        simp only [tick, if_neg quiet, rest]
      · rw [callsAt_append, callsAt_slept, callsAt_each (by rw [made]), each]
        split <;> rfl

theorem forced_of_stops (stops : ∀ subsystem : σ, (Subsystem.stop subsystem).1.isOk = true) (s : Supervisor σ) :
    (shutdownAll s).1.forced = [] := by
  have stopped (s : Supervisor σ) (name : String) : (s.stopSubsystem name).1.isOk = true := by
    rw [stopSubsystem]
    split
    · split
      · exact stops _
      · rfl
    · rfl
  have drained (names : List String) (d : Draining σ) : (names.foldl drainStep d).forced = d.forced := by
    induction names generalizing d with
    | nil => rfl
    | cons name names ih =>
        rw [List.foldl_cons, ih, drainStep]
        have fine := stopped d.sup name
        cases answer : d.sup.stopSubsystem name with
        | mk result rest =>
            rw [answer] at fine
            cases result with
            | ok => rfl
            | error e => cases fine
  exact drained s.shutdownOrder _

theorem up_stubs (names : List String) (ticks : UInt32) (index : ℕ) :
    (up index (names.map (tickedStub ticks))).map stopCall =
      (List.range' index names.length).map fun i => (i, .stop, true) := by
  induction names generalizing index with
  | nil => rfl
  | cons name names ih =>
      have here : (tickedStub ticks name).running = true := rfl
      rw [List.map_cons, up_cons, if_pos here, List.map_cons, ih]
      rfl

theorem shutdownAll_stubs {s : Supervisor StubSubsystem} {names : List String} {ticks : UInt32}
    (held : s.entries = names.map (tickedStub ticks)) :
    (shutdownAll s).1.stoppedInOrder.length = names.length ∧
      (calls (shutdownAll s).2.2).Perm (eachOnce names.length .stop) := by
  have asked : s.runningNames.reverse.Perm s.runningNames := List.reverse_perm _
  obtain ⟨made, -, reported⟩ := shutdownAll_picks s
  have stops : (up 0 s.entries).map stopCall = eachOnce names.length .stop := by
    rw [held]
    exact up_stubs names ticks 0
  refine ⟨?_, ?_⟩
  · have lengths := reported.length_eq
    rw [forced_of_stops stub_healthyWhileStarted.stops, List.append_nil, List.length_reverse, runningNames,
      List.length_map, ← List.length_map stopCall, stops, eachOnce, List.length_map, List.length_range'] at lengths
    exact lengths
  · rw [made, ← stops]
    exact (Picks.picked_perm asked).1.map stopCall

theorem boot_stubs {cfg : NodeConfig} (valid : cfg.validate = .ok ()) :
    ∃ events, (registered cfg.maxRestarts cfg.restartBackoffMs (cfg.made StubSubsystem.new)).startAll =
        (.ok (), ⟨cfg.enabledSubsystems.map (tickedStub 0), cfg.maxRestarts, cfg.restartBackoffMs⟩, events) ∧
      calls events = eachOnce cfg.enabledSubsystems.length .start := by
  have started (names : List String) (index : ℕ) :
      ∃ events, startFrom index (names.map fun name => freshEntry (StubSubsystem.new name)) =
          (.ok (), names.map (tickedStub 0), events) ∧
        calls events = (List.range' index names.length).map fun i => (i, .start, true) := by
    induction names generalizing index with
    | nil => exact ⟨[], rfl, rfl⟩
    | cons name names ih =>
        obtain ⟨events, begun, made⟩ := ih (index + 1)
        rw [List.map_cons, startFrom_started rfl, begun]
        refine ⟨_, rfl, ?_⟩
        rw [calls_called, calls_recorded, made]
        rfl
  obtain ⟨events, begun, made⟩ := started cfg.enabledSubsystems 0
  refine ⟨events, ?_, made⟩
  rw [startAll, registered, register_all, new, made_of_validate valid, List.map_map, List.nil_append]
  have fresh : ((fun subsystem => (⟨subsystem, 0, .healthy, false⟩ : Entry StubSubsystem)) ∘ StubSubsystem.new) =
      fun name => freshEntry (StubSubsystem.new name) := rfl
  rw [fresh, begun]

theorem run_of_admits {host : Host} {cfg : NodeConfig} (admits : Admits host cfg) (make : String → σ) :
    run make host = serve make host cfg := by
  obtain ⟨other, also, goes⟩ | ⟨refused, -⟩ := run_cases make host
  · cases admits.loaded.symm.trans also.loaded
    exact goes
  · exact absurd admits (refused cfg)

/-- The daemon as it is shipped: on a host that admits its configuration every enabled subsystem is started once and
ticked once a pass, and a signal stops each of them once, none by force; its lifecycle is never degraded. -/
theorem shipped_daemon (host : Host) {cfg : NodeConfig} (admits : Admits host cfg) :
    let k := cfg.enabledSubsystems.length
    if host.handler && host.signal then
      ∃ d events, run StubSubsystem.new host =
          .exited 0 s!"[kai-os-node] stopped: {k} stopped cleanly, 0 forced" (some d) events ∧
        d.lc.history = [(.init, .boot), (.boot, .running), (.running, .shutdown), (.shutdown, .stopped)] ∧
        ∀ index, callsAt index events =
          if index < k then (.start, true) :: List.replicate host.passes (.tick, true) ++ [(.stop, true)] else []
    else
      ∃ d events, run StubSubsystem.new host = .serving d events ∧
        d.lc.history = [(.init, .boot), (.boot, .running)] ∧
        ∀ index, callsAt index events =
          if index < k then (.start, true) :: List.replicate host.passes (.tick, true) else [] := by
  intro k
  obtain ⟨started, begun, starts⟩ := boot_stubs admits.valid
  obtain ⟨ended, passed, looped, ticks⟩ := loop_stubs cfg.enabledSubsystems cfg.maxRestarts cfg.restartBackoffMs
    cfg.tickIntervalMs ⟨.running, [(.init, .boot), (.boot, .running)]⟩ rfl host.passes 0
  have booted : Lifecycle.new.transition .boot = (.ok .boot, ⟨.boot, [(.init, .boot)]⟩) := rfl
  have legal : Lifecycle.transition ⟨.boot, [(.init, .boot)]⟩ .running =
      (.ok .running, ⟨.running, [(.init, .boot), (.boot, .running)]⟩) := rfl
  have quiet (index : ℕ) : callsAt index
      (if host.handler then [] else [.recorded "daemon" "WARN: signal handler not installed"]) = [] := by
    split <;> rfl
  have silent (index : ℕ) : callsAt index (opening host cfg) = [] := rfl
  rw [run_of_admits admits, serve, booted]
  simp only [begun, legal, looped]
  split
  · obtain ⟨stopped, stops⟩ := shutdownAll_stubs (s := ⟨cfg.enabledSubsystems.map (tickedStub ended),
      cfg.maxRestarts, cfg.restartBackoffMs⟩) rfl
    have forced := forced_of_stops stub_healthyWhileStarted.stops
      ⟨cfg.enabledSubsystems.map (tickedStub ended), cfg.maxRestarts, cfg.restartBackoffMs⟩
    have tail : " stopped cleanly, " ++ ("0" ++ " forced") = " stopped cleanly, 0 forced" := by decide
    have line : s!"[kai-os-node] stopped: {k} stopped cleanly, {([] : List String).length} forced" =
        s!"[kai-os-node] stopped: {k} stopped cleanly, 0 forced" := by
      rw [String.append_assoc, String.append_assoc]
      exact congrArg _ tail
    simp only [drain, stopped, forced, ← line]
    refine ⟨_, _, rfl, rfl, fun index => ?_⟩
    simp only [callsAt_append, callsAt_recorded, callsAt_nil, silent, quiet, callsAt_each (.of_eq starts), ticks,
      callsAt_each stops]
    split
    · simp
    · rfl
  · refine ⟨_, _, rfl, rfl, fun index => ?_⟩
    simp only [callsAt_append, callsAt_recorded, callsAt_nil, silent, quiet, callsAt_each (.of_eq starts), ticks]
    split <;> rfl

/-- A host with the configuration of the tests, a signal after two passes. -/
def testHost : Host where
  arg := none
  read _ := .ok ""
  parse _ := .ok NodeConfig.defaultForTest
  euid := 1000
  makeDir _ := .ok ()
  handler := true
  passes := 2
  signal := true

theorem testHost_admits : Admits testHost NodeConfig.defaultForTest where
  loaded := by decide
  user := by decide
  log := rfl

theorem shipped_daemon_tested :
    ∃ d events, run StubSubsystem.new testHost =
        .exited 0 "[kai-os-node] stopped: 6 stopped cleanly, 0 forced" (some d) events ∧
      ∀ index < 6, callsAt index events = [(.start, true), (.tick, true), (.tick, true), (.stop, true)] := by
  obtain ⟨d, events, ran, -, each⟩ := shipped_daemon testHost testHost_admits
  refine ⟨d, events, ran, fun index inside => (each index).trans ?_⟩
  exact if_pos inside

end Daemon
end KaiOs.Node
