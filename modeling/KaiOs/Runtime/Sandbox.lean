import KaiOs.Lib.Traces
import KaiOs.Runtime.Resources

/-! `runtime/src/sandbox.rs`: operations behind the policy gate. -/
namespace KaiOs.Runtime
open Machine

inductive Operation where
  | compute (cpuMs : UInt64)
  | alloc (bytes : UInt64)
  | free (bytes : UInt64)
  | store (bytes : UInt64)
  | networkOut (bytes : UInt64) (port : UInt16)
  | networkIn (bytes : UInt64) (port : UInt16)
  | syscall (name : String)
  | sign (hash : String)
  deriving DecidableEq

inductive ExecOutcome where
  | computed (cpuMs : UInt64)
  | allocated (bytes : UInt64)
  | freed (bytes : UInt64)
  | stored (bytes : UInt64)
  | networkSent (bytes : UInt64) (port : UInt16)
  | networkReceived (bytes : UInt64) (port : UInt16)
  | syscalled (name : String)
  | signed (signature : String)
  deriving DecidableEq

inductive SandboxError where
  | denied (reason : String)
  | resource (e : ResourceError)
  deriving DecidableEq

structure Sandbox where
  id : String
  capability : CapabilitySet
  deriving DecidableEq

/-- An error of the resource manager is passed on. -/
def answer (outcome : ExecOutcome) :
    Except ResourceError Unit × ResourceManager → Except SandboxError ExecOutcome × ResourceManager
  | (.error e, rm) => (.error (.resource e), rm)
  | (.ok (), rm) => (.ok outcome, rm)

namespace Sandbox

def execute (shaHex : String → String) (build : Build) (sandbox : Sandbox) (op : Operation)
    (resources : ResourceManager) : Option (Except SandboxError ExecOutcome × ResourceManager) :=
  match op with
  | .compute cpuMs =>
      (resources.consumeCpu build sandbox.id cpuMs sandbox.capability).map (answer (.computed cpuMs))
  | .alloc bytes =>
      (resources.allocMemory build sandbox.id bytes sandbox.capability).map (answer (.allocated bytes))
  | .free bytes => (resources.freeMemory build sandbox.id bytes).map (answer (.freed bytes))
  | .store bytes =>
      (resources.consumeStorage build sandbox.id bytes sandbox.capability).map (answer (.stored bytes))
  | .networkOut bytes port =>
      if sandbox.capability.network.allowsOutbound port then
        (resources.recordNetworkOut build sandbox.id bytes).map fun rm =>
          (.ok (.networkSent bytes port), rm)
      else some (.error (.denied s!"outbound port {port} not allowed (deny by default)"), resources)
  | .networkIn bytes port =>
      if sandbox.capability.network.allowsInbound port then
        (resources.recordNetworkIn build sandbox.id bytes).map fun rm =>
          (.ok (.networkReceived bytes port), rm)
      else some (.error (.denied s!"inbound port {port} not allowed (deny by default)"), resources)
  | .syscall name =>
      if sandbox.capability.allowsSyscall name then some (.ok (.syscalled name), resources)
      else some (.error (.denied s!"syscall '{name}' not in allowlist (deny by default)"), resources)
  | .sign hash =>
      if sandbox.capability.crypto then
        some (.ok (.signed (shaHex s!"sig|{hash}")), resources)
      else some (.error (.denied "crypto capability not granted"), resources)

end Sandbox

/-- The counters with a quota. -/
def CapabilitySet.limit (cap : CapabilitySet) : Counter → Option UInt64
  | .cpu => some cap.cpuMsPerTick
  | .memory => some cap.memoryBytes
  | .storage => some cap.storageBytes
  | .networkOut | .networkIn => none

/-- What an operation adds to a counter, where the policy gate lets it pass. -/
def Operation.demand (cap : CapabilitySet) : Operation → Option (Counter × UInt64)
  | .compute cpuMs => some (.cpu, cpuMs)
  | .alloc bytes => some (.memory, bytes)
  | .store bytes => some (.storage, bytes)
  | .networkOut bytes port => if cap.network.allowsOutbound port then some (.networkOut, bytes) else none
  | .networkIn bytes port => if cap.network.allowsInbound port then some (.networkIn, bytes) else none
  | .free _ | .syscall _ | .sign _ => none

namespace ExecOutcome

/-- What an outcome has added to a counter. -/
def gain : Counter → ExecOutcome → ℕ
  | .cpu, .computed cpuMs => cpuMs.toNat
  | .memory, .allocated bytes => bytes.toNat
  | .storage, .stored bytes => bytes.toNat
  | .networkOut, .networkSent bytes _ => bytes.toNat
  | .networkIn, .networkReceived bytes _ => bytes.toNat
  | _, _ => 0

/-- What an outcome has taken from a counter. -/
def loss : Counter → ExecOutcome → ℕ
  | .memory, .freed bytes => bytes.toNat
  | _, _ => 0

end ExecOutcome

/-- The ways in which a call can end. -/
inductive Ended (build : Build) (s : Sandbox) (op : Operation) (rm : ResourceManager) :
    Except SandboxError ExecOutcome → ResourceManager → Prop
  | rejected (e : SandboxError)
      (exceeds : ∀ c n, op.demand s.capability = some (c, n) → ∃ total l,
        build.add ((rm.usageOf s.id).get c) n = some total ∧ s.capability.limit c = some l ∧ l < total) :
      Ended build s op rm (.error e) rm
  | idle (outcome : ExecOutcome) (none : op.demand s.capability = none) (gain : ∀ c, outcome.gain c = 0)
      (loss : ∀ c, outcome.loss c = 0) : Ended build s op rm (.ok outcome) rm
  | booked (c : Counter) (n total : UInt64) (outcome : ExecOutcome)
      (demand : op.demand s.capability = some (c, n))
      (sum : build.add ((rm.usageOf s.id).get c) n = some total)
      (within : ∀ l, s.capability.limit c = some l → total ≤ l)
      (gain : ∀ d, outcome.gain d = if d = c then n.toNat else 0) (loss : ∀ d, outcome.loss d = 0) :
      Ended build s op rm (.ok outcome) (rm.put s.id ((rm.usageOf s.id).set total c))
  | freed (bytes : UInt64) (le : bytes ≤ (rm.usageOf s.id).memoryBytesCurrent)
      (none : op.demand s.capability = none) :
      Ended build s op rm (.ok (.freed bytes))
        (rm.put s.id ((rm.usageOf s.id).set ((rm.usageOf s.id).memoryBytesCurrent - bytes) .memory))

section
variable {shaHex : String → String} {build : Build} {s : Sandbox} {op : Operation} {rm rm' : ResourceManager}
  {result : Except SandboxError ExecOutcome}

theorem ended_of_charge {c : Counter} {resource : String} {limit n : UInt64} {outcome : ExecOutcome}
    (h : (ResourceManager.charge build c resource limit rm s.id n).map (answer outcome) = some (result, rm'))
    (demand : op.demand s.capability = some (c, n)) (limited : s.capability.limit c = some limit)
    (gain : ∀ d, outcome.gain d = if d = c then n.toNat else 0) (loss : ∀ d, outcome.loss d = 0) :
    Ended build s op rm result rm' := by
  obtain ⟨⟨charged, rm''⟩, charging, h⟩ := Option.map_eq_some_iff.mp h
  obtain ⟨total, sum, ⟨above, rfl, rfl⟩ | ⟨within, rfl, rfl⟩⟩ := ResourceManager.charge_cases charging
  · cases h
    refine .rejected _ fun c' n' demand' => ?_
    cases demand.symm.trans demand'
    exact ⟨total, limit, sum, limited, above⟩
  · cases h
    refine .booked c n total outcome demand sum (fun l hl => ?_) gain loss
    cases limited.symm.trans hl
    exact within

theorem ended_of_book {c : Counter} {n : UInt64} {outcome : ExecOutcome}
    (h : (ResourceManager.book build c rm s.id n).map (fun booked => (.ok outcome, booked)) =
      some (result, rm'))
    (demand : op.demand s.capability = some (c, n)) (free : s.capability.limit c = none)
    (gain : ∀ d, outcome.gain d = if d = c then n.toNat else 0) (loss : ∀ d, outcome.loss d = 0) :
    Ended build s op rm result rm' := by
  obtain ⟨booked, booking, h⟩ := Option.map_eq_some_iff.mp h
  obtain ⟨total, sum, rfl⟩ := ResourceManager.book_cases booking
  cases h
  refine .booked c n total outcome demand sum (fun l hl => ?_) gain loss
  cases free.symm.trans hl

theorem execute_ended (h : s.execute shaHex build op rm = some (result, rm')) :
    Ended build s op rm result rm' := by
  cases op with
  | compute | alloc | store =>
      exact ended_of_charge h rfl rfl (fun d => by cases d <;> rfl) (fun d => by cases d <;> rfl)
  | free bytes =>
      obtain ⟨⟨released, rm''⟩, releasing, h⟩ := Option.map_eq_some_iff.mp h
      obtain ⟨-, rfl, rfl⟩ | ⟨le, rfl, rfl⟩ := ResourceManager.freeMemory_cases releasing
      · cases h
        exact .rejected _ nofun
      · cases h
        exact .freed bytes le rfl
  | networkOut bytes port | networkIn bytes port =>
      simp only [Sandbox.execute] at h
      split_ifs at h with allowed
      · exact ended_of_book h (if_pos allowed) rfl (fun d => by cases d <;> rfl) (fun d => by cases d <;> rfl)
      · cases h
        exact .rejected _ fun c n demand => nomatch (if_neg allowed).symm.trans demand
  | syscall | sign =>
      simp only [Sandbox.execute] at h
      split_ifs at h with allowed <;> cases h
      · exact .idle _ rfl (fun d => by cases d <;> rfl) (fun d => by cases d <;> rfl)
      · exact .rejected _ nofun

theorem Ended.frame (h : Ended build s op rm result rm') {id : String} (other : id ≠ s.id) :
    rm'.usageOf id = rm.usageOf id := by
  cases h with
  | rejected | idle => rfl
  | booked | freed => rw [ResourceManager.usageOf_put, if_neg other]

/-- A call panics where the addition it demands does. -/
theorem execute_isSome_iff : (s.execute shaHex build op rm).isSome ↔
    ∀ c n, op.demand s.capability = some (c, n) → (build.add ((rm.usageOf s.id).get c) n).isSome := by
  have demanded {c : Counter} {n : UInt64} (h : op.demand s.capability = some (c, n)) :
      (build.add ((rm.usageOf s.id).get c) n).isSome ↔ ∀ c' n', op.demand s.capability = some (c', n') →
        (build.add ((rm.usageOf s.id).get c') n').isSome := by
    constructor
    · intro fits c' n' h'
      cases h.symm.trans h'
      exact fits
    · exact fun fits => fits c n h
  have idle (h : op.demand s.capability = none) : ∀ c n, op.demand s.capability = some (c, n) →
      (build.add ((rm.usageOf s.id).get c) n).isSome :=
    fun c n h' => nomatch h.symm.trans h'
  cases op with
  | compute | alloc | store =>
      simp only [Sandbox.execute, ResourceManager.consumeCpu, ResourceManager.allocMemory,
        ResourceManager.consumeStorage, Option.isSome_map, ResourceManager.charge_isSome]
      exact demanded rfl
  | free bytes =>
      refine iff_of_true ?_ (idle rfl)
      rw [Sandbox.execute, ResourceManager.freeMemory_eq]
      rfl
  | networkOut bytes port | networkIn bytes port =>
      simp only [Sandbox.execute, ResourceManager.recordNetworkOut, ResourceManager.recordNetworkIn]
      split_ifs with allowed
      · rw [Option.isSome_map, ResourceManager.book_isSome]
        exact demanded (if_pos allowed)
      · exact iff_of_true rfl (idle (if_neg allowed))
  | syscall | sign =>
      refine iff_of_true ?_ (idle rfl)
      simp only [Sandbox.execute]
      split_ifs <;> rfl

/-- Only the additions tell the builds apart. -/
theorem execute_congr_build {build' : Build}
    (same : ∀ c n, op.demand s.capability = some (c, n) →
      build'.add ((rm.usageOf s.id).get c) n = build.add ((rm.usageOf s.id).get c) n) :
    s.execute shaHex build' op rm = s.execute shaHex build op rm := by
  cases op with
  | compute | alloc | store =>
      exact congrArg (Option.map _) (ResourceManager.charge_congr (same _ _ rfl) _ _)
  | free bytes => simp only [Sandbox.execute, ResourceManager.freeMemory_eq]
  | networkOut bytes port | networkIn bytes port =>
      simp only [Sandbox.execute]
      split_ifs with allowed
      · exact congrArg (Option.map _) (ResourceManager.book_congr (same _ _ (if_pos allowed)))
      · rfl
  | syscall | sign => rfl

end

/-- The calls that several sandboxes make on one manager. -/
inductive Action where
  | execute (sandbox : Sandbox) (op : Operation)
  | resetTick
  deriving DecidableEq

/-- A reset has no result. -/
abbrev Reply := Option (Except SandboxError ExecOutcome)

def step (shaHex : String → String) (build : Build) (rm : ResourceManager) : Action → Option (Reply × ResourceManager)
  | .execute sandbox op => (sandbox.execute shaHex build op rm).map fun (result, rm') => (some result, rm')
  | .resetTick => some (none, rm.resetTick)

/-- Additions that wrap around never panic. -/
theorem step_release_isSome (shaHex : String → String) (rm : ResourceManager) (a : Action) :
    (step shaHex .release rm a).isSome := by
  cases a with
  | execute s op =>
      rw [step, Option.isSome_map, execute_isSome_iff]
      exact fun _ _ _ => rfl
  | resetTick => rfl

end KaiOs.Runtime
