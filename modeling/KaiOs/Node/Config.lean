import KaiOs.Node.Lifecycle
import KaiOs.State.Wal

/-! `node/src/config.rs`: the configuration of the daemon, and the subsystems `main` builds from it. -/
namespace KaiOs.Node

def knownSubsystems : List String := ["consensus", "p2p", "state-sync", "ai-runtime", "storage", "security"]

structure NodeConfig where
  nodeName : String
  dataDir : String
  allowRoot : Bool
  maxRestarts : UInt32
  restartBackoffMs : UInt64
  tickIntervalMs : UInt64
  shutdownTimeoutMs : UInt64
  enabledSubsystems : List String
  deriving DecidableEq

inductive ConfigError where
  | read (e : String)
  | parse (e : String)
  | validation (e : String)
  deriving DecidableEq

namespace NodeConfig

/-- `trim` leaves nothing of a blank text. -/
def validate (c : NodeConfig) : Except ConfigError Unit :=
  if isBlank c.nodeName then .error (.validation "node_name empty")
  else if isBlank c.dataDir then .error (.validation "data_dir empty")
  else if c.maxRestarts < 1 || c.maxRestarts > 10 then .error (.validation "max_restarts out of range [1,10]")
  else if c.restartBackoffMs > 60000 then .error (.validation "restart_backoff_ms > 60000")
  else if c.tickIntervalMs = 0 then .error (.validation "tick_interval_ms must be > 0")
  else if c.shutdownTimeoutMs = 0 then .error (.validation "shutdown_timeout_ms must be > 0")
  else if c.enabledSubsystems.isEmpty then .error (.validation "enabled_subsystems empty")
  else
    match c.enabledSubsystems.find? fun s => ! knownSubsystems.contains s with
    | some s => .error (.validation s!"unknown subsystem '{s}'")
    | none => .ok ()

def defaultForTest : NodeConfig where
  nodeName := "test-node"
  dataDir := "/tmp/kai-os-test"
  allowRoot := false
  maxRestarts := 3
  restartBackoffMs := 0
  tickIntervalMs := 10
  shutdownTimeoutMs := 1000
  enabledSubsystems := knownSubsystems

/-- What `main` registers. -/
def subsystems (c : NodeConfig) : List StubSubsystem :=
  c.enabledSubsystems.filterMap fun name =>
    (knownSubsystems.find? fun s => s = name).map fun sn => ⟨sn, 0, 0, false, 0⟩

theorem known_of_validate {c : NodeConfig} (valid : c.validate = .ok ()) :
    ∀ name ∈ c.enabledSubsystems, name ∈ knownSubsystems := by
  rw [validate] at valid
  split_ifs at valid
  cases unknown : c.enabledSubsystems.find? fun s => ! knownSubsystems.contains s with
  | some s =>
      rw [unknown] at valid
      cases valid
  | none =>
      intro name member
      have known := List.find?_eq_none.mp unknown name member
      simpa using known

theorem subsystems_of_validate {c : NodeConfig} (valid : c.validate = .ok ()) :
    c.subsystems = c.enabledSubsystems.map fun name => ⟨name, 0, 0, false, 0⟩ := by
  have known := known_of_validate valid
  rw [subsystems]
  generalize c.enabledSubsystems = names at known
  induction names with
  | nil => rfl
  | cons name names ih =>
      obtain ⟨listed, others⟩ := List.forall_mem_cons.mp known
      have here : (knownSubsystems.find? fun s => s = name).isSome = true :=
        List.find?_isSome.mpr ⟨name, listed, decide_eq_true rfl⟩
      obtain ⟨s, found⟩ := Option.isSome_iff_exists.mp here
      have same : s = name := by simpa using List.find?_some found
      subst same
      rw [List.filterMap_cons, found, List.map_cons, ih others]
      rfl

end NodeConfig
end KaiOs.Node
