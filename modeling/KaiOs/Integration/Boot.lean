import KaiOs.Ai.Ipc
import KaiOs.Ai.Proposal
import KaiOs.Health.Gossip
import KaiOs.Health.Watchdog
import KaiOs.Keyring.Keyring
import KaiOs.Lib.Sha256
import KaiOs.Node.Lifecycle
import KaiOs.Runtime.Grants
import KaiOs.State.Snapshot

/-! `integration/src/lib.rs`: the boot in nine steps, each of which checks what it has done. An error of a step ends
the boot; `none` is a panic. -/
namespace KaiOs

/-- `{state:?}`, which is also how a state is displayed. -/
def Node.State.debug : Node.State → String
  | .init => "Init"
  | .boot => "Boot"
  | .running => "Running"
  | .degraded => "Degraded"
  | .shutdown => "Shutdown"
  | .stopped => "Stopped"

def Node.LifecycleError.display (e : Node.LifecycleError) : String :=
  s!"illegal lifecycle transition {e.fromState.debug} -> {e.toState.debug}"

def Keys.KeyringError.display : Keys.KeyringError → String
  | .unknownKey id => s!"unknown key '{id}' (fail-closed)"
  | .keyRevoked id => s!"key '{id}' revoked (fail-closed)"
  | .duplicateKey id => s!"key id '{id}' already exists"

def SyncError.display : SyncError → String
  | .heightGap expected got => s!"height gap: expected {expected}, got {got}"
  | .duplicate height => s!"duplicate block at height {height}"
  | .fork height known got => s!"fork at {height}: known {known}, got {got}"
  | .prevMismatch expected got => s!"prev mismatch: expected {expected}, got {got}"
  | .rootMismatch claimed computed =>
      s!"state root mismatch: claimed {claimed}, computed {computed} (block NOT trusted)"
  | .snapshotHeightMismatch expected got => s!"snapshot height mismatch: expected {expected}, got {got}"
  | .snapshotRootMismatch claimed computed => s!"snapshot root mismatch: claimed {claimed}, computed {computed}"

def Runtime.CapabilityError.display (e : Runtime.CapabilityError) : String := s!"capability invalid: {e.message}"

def Runtime.ResourceError.display : Runtime.ResourceError → String
  | .quotaExceeded resource requested limit used =>
      s!"{resource} quota exceeded: requested {requested}, used {used}, limit {limit}"
  | .invalidFree attempted current =>
      s!"invalid free: attempted {attempted}, current {current} (kein Negativsaldo)"

def Runtime.SandboxError.display : Runtime.SandboxError → String
  | .denied reason => s!"DENIED: {reason}"
  | .resource e => s!"RESOURCE: {e.display}"

def Ai.IpcError.display : Ai.IpcError → String
  | .unknownAgent agent => s!"unknown agent '{agent}' (deny by default)"
  | .capabilityDenied agent msgType => s!"agent '{agent}' lacks capability for '{msgType}' (deny by default)"
  | .replay seq last => s!"ipc replay: seq {seq} <= last {last}"
  | .schemaViolation msgType missing => s!"schema violation for '{msgType}': missing field '{missing}' (fail-closed)"

def Ai.ProposalState.debug : Ai.ProposalState → String
  | .proposed => "Proposed"
  | .specified => "Specified"
  | .handedToVM => "HandedToVM"

def Ai.ProposalError.display : Ai.ProposalError → String
  | .unknownProposal id => s!"unknown proposal '{id}'"
  | .invalidTransition source target => s!"invalid proposal transition {source.debug} -> {target.debug}"

/-- `HealthStatus::from` -/
def Health.HealthStatus.ofService : Health.ServiceState → Health.HealthStatus
  | .running => .healthy
  | .stale => .stale
  | .declaredDead => .dead

namespace Integration
open Machine Network Utf8

/-- The text of a digest: 64 hex digits. -/
structure HexText (text : String) : Prop where
  length : text.toList.length = 64
  digits : ∀ c ∈ text.toList, c ∈ "0123456789abcdef".toList

/-- What the boot takes from other packages, and the JSON object that it writes as a literal. -/
structure Externals (SigningKey Value : Type) where
  shaHex : String → String
  hexText : ∀ text, HexText (shaHex text)
  keys : Keys.KeyExternals SigningKey
  get : Value → String → Option Value
  text : Value → String
  payload : Value

def Externals.ai {SigningKey Value : Type} (E : Externals SigningKey Value) : Ai.AiExternals Value :=
  ⟨E.shaHex, E.get, E.text⟩

structure BootConfig where
  nodeSeed : U8Array 32
  agentSeed : U8Array 32
  txs : List Tx

structure BootedSystem (SigningKey Value : Type) where
  lifecycle : Node.Lifecycle
  keyring : Keys.Keyring SigningKey
  state : StateStore
  snapshot : Snapshot
  stateRoot : String
  watchdog : Health.Watchdog
  ipc : Ai.IpcGateway
  proposals : Ai.ProposalRegistry Value
  proposalId : String
  proposalSignature : U8Array 64
  gossip : Health.HealthGossip

structure BootReport where
  steps : List (String × String)

def BootReport.ok (report : BootReport) : Bool :=
  report.steps.all fun step => ! "FAIL".toList.isPrefixOf step.2.toList

structure BootError where
  step : String
  detail : String
  deriving DecidableEq

/-- A part of the boot: a panic, an error or a result. -/
abbrev Part (α : Type) := ExceptT BootError Option α

/-- The closure `fail`. -/
def fail (step detail : String) : BootError := ⟨step, s!"FAIL: {detail}"⟩

/-- `result.map_err(|e| fail(step, e.to_string()))?` -/
def check {ε α : Type} (step : String) (display : ε → String) (result : Except ε α) : Part α :=
  match result with
  | .ok a => pure a
  | .error e => throw (fail step (display e))

def demand (step detail : String) (met : Bool) : Part Unit := if met then pure () else throw (fail step detail)

/-- `&text[..16]`, which needs a character to end behind the first 16 bytes. -/
def slice16 (text : String) : Option String :=
  if (utf8 text).length < 16 then none else decode ((utf8 text).take 16)

section
variable {SigningKey Value : Type} (E : Externals SigningKey Value) (build : Build) (cfg : BootConfig)

def bootLifecycle : Part Node.Lifecycle := do
  let (booting, lifecycle) := Node.Lifecycle.new.transition .boot
  let _ ← check "lifecycle" Node.LifecycleError.display booting
  let (running, lifecycle) := lifecycle.transition .running
  let _ ← check "lifecycle" Node.LifecycleError.display running
  demand "lifecycle" "not RUNNING after transitions" (lifecycle.current = .running)
  pure lifecycle

def bootKeyring : Part (Keys.Keyring SigningKey) := do
  let (_, keyring) ← check "keyring" Keys.KeyringError.display
    (Keys.Keyring.new.importSeed E.keys "node-key" .nodeIdentity cfg.nodeSeed)
  let (_, keyring) ← check "keyring" Keys.KeyringError.display
    (keyring.importSeed E.keys "agent-key" .agentSigning cfg.agentSeed)
  pure keyring

def bootSnapshot (state : StateStore) (stateRoot : String) : Part Snapshot := do
  let snapshot := Snapshot.fromState E.shaHex 1 "genesis-0001" state
  check "snapshot" SyncError.display (snapshot.verifyAgainst E.shaHex 1 stateRoot)
  pure snapshot

def bootSandbox : Part Unit := do
  let caps ← check "sandbox" Runtime.CapabilityError.display
    ((Runtime.CapabilitySet.builder.cpuMs 100).memory 1024).build
  check "sandbox" Runtime.CapabilityError.display caps.validate
  let (result, _) ← ExceptT.lift
    ((Runtime.Sandbox.new "vm-exec" caps).execute E.shaHex build (.compute 50) .new)
  let _ ← check "sandbox" Runtime.SandboxError.display result

def bootIpc : Part Ai.IpcGateway := do
  let ipc := Ai.IpcGateway.new.registerAgent E.ai "kai-agent-1" ["propose_tx", "query_state"]
  let (delivered, ipc) := ipc.deliver E.ai ⟨"kai-agent-1", "propose_tx", 1, E.payload⟩
  let _ ← check "ipc" Ai.IpcError.display delivered
  demand "ipc" "audit chain broken after delivery" (ipc.audit.verify E.shaHex)
  pure ipc

def bootProposal : Part (String × Ai.ProposalRegistry Value) := do
  let (id, proposals) := Ai.ProposalRegistry.new.submit E.ai ⟨"kai-agent-1", "propose_tx", E.payload⟩
  let (specified, proposals) := proposals.markSpecified E.ai id
  check "proposal" Ai.ProposalError.display specified
  let (handed, proposals) := proposals.markHandedToVM E.ai id
  check "proposal" Ai.ProposalError.display handed
  demand "proposal" "not HandedToVM after lifecycle"
    ((proposals.proposals[id]?).map (·.state) = some .handedToVM)
  pure (id, proposals)

def bootSignature (keyring : Keys.Keyring SigningKey) (proposalId : String) : Part (U8Array 64) := do
  let signature ← check "signature" Keys.KeyringError.display (keyring.sign E.keys "node-key" (utf8 proposalId))
  let public' ← check "signature" Keys.KeyringError.display (keyring.publicKey E.keys "node-key")
  demand "signature" "handoff signature does not verify" (Keys.verify E.keys public' (utf8 proposalId) signature)
  pure signature

def services : List (String × UInt64 × UInt64) := [("node-daemon", 3, 5), ("vm-exec", 2, 4), ("ai-runtime", 3, 5)]

def bootHealth : Part (Health.Watchdog × Health.HealthGossip) := do
  let watchdog ← services.foldlM (fun (watchdog : Health.Watchdog) (service, stale, dead) => do
    let (registered, watchdog) := watchdog.register service stale dead
    check "health" Health.WatchdogError.display registered
    pure watchdog) (Health.Watchdog.new 0)
  let gossip ← services.foldlM (fun (gossip : Health.HealthGossip) (service, _, _) => do
    let state ← check "health" Health.WatchdogError.display (watchdog.state service)
    pure (gossip.observe service (.ofService state) watchdog.nowTick)) (Health.HealthGossip.new "self")
  let daemon ← check "health" Health.WatchdogError.display (watchdog.state "node-daemon")
  demand "health" "node-daemon not Running after boot" (daemon = .running)
  pure (watchdog, gossip)

/-- The report, which gains an entry with every step. -/
def bootReport (entries : ℕ) (rootStart idStart : String) : BootReport where
  steps := [("lifecycle", "INIT->BOOT->RUNNING"), ("keyring", "node-key + agent-key imported (public only)"),
    ("state", s!"{entries} entries, root {rootStart}"), ("snapshot", "verified against trusted root"),
    ("sandbox", "Compute(50ms) within capability"), ("ipc", "propose_tx delivered, schema + audit ok"),
    ("proposal", s!"{idStart} HandedToVM"), ("signature", "handoff signed by node-key, verified"),
    ("health", "3 services observed, gossip snapshot ready")]

def boot : Option (Except BootError (BootedSystem SigningKey Value × BootReport)) := ExceptT.run do
  let lifecycle ← bootLifecycle
  let keyring ← bootKeyring E cfg
  let state := StateStore.new.applyAll cfg.txs
  let stateRoot := state.stateRoot E.shaHex
  let rootStart ← ExceptT.lift (slice16 stateRoot)
  let snapshot ← bootSnapshot E state stateRoot
  bootSandbox E build
  let ipc ← bootIpc E
  let (proposalId, proposals) ← bootProposal E
  let idStart ← ExceptT.lift (slice16 proposalId)
  let proposalSignature ← bootSignature E keyring proposalId
  let (watchdog, gossip) ← bootHealth
  pure (⟨lifecycle, keyring, state, snapshot, stateRoot, watchdog, ipc, proposals, proposalId, proposalSignature,
    gossip⟩, bootReport state.entries.size rootStart idStart)

end

theorem hexText_stateRoot {SigningKey Value : Type} (E : Externals SigningKey Value) (state : StateStore) :
    HexText (state.stateRoot E.shaHex) := by
  rw [StateStore.stateRoot]
  cases found : entryTree state.entries with
  | none =>
      rw [(merkleRoot_empty E.shaHex found).2]
      have digits : emptyRoot.toList.all (· ∈ "0123456789abcdef".toList) = true := by decide
      exact ⟨by decide, fun c member => of_decide_eq_true (List.all_eq_true.mp digits c member)⟩
  | some top =>
      rw [merkleRoot_eq_digest E.shaHex found]
      cases top with
      | leaf | node => exact E.hexText _

/-- The first 16 digits of a digest can be cut off. -/
theorem slice16_hexText {text : String} (hex : HexText text) :
    ∃ start, slice16 text = some start ∧ ∀ c ∈ start.toList, c ∈ "0123456789abcdef".toList := by
  have single (c : Char) (digit : c ∈ "0123456789abcdef".toList) : (String.utf8EncodeChar c).length = 1 := by
    have digits : "0123456789abcdef".toList.all (fun c => (String.utf8EncodeChar c).length = 1) = true := by decide
    exact of_decide_eq_true (List.all_eq_true.mp digits c digit)
  have bytes (cs : List Char) (digits : ∀ c ∈ cs, c ∈ "0123456789abcdef".toList) :
      (utf8 (String.ofList cs)).length = cs.length := by
    rw [utf8_ofList]
    induction cs with
    | nil => rfl
    | cons c cs ih =>
        rw [List.flatMap_cons, List.length_append, single c (digits c List.mem_cons_self),
          ih fun d member => digits d (List.mem_cons_of_mem _ member), Nat.add_comm, List.length_cons]
  have front (c : Char) (member : c ∈ text.toList.take 16) : c ∈ "0123456789abcdef".toList :=
    hex.digits c (List.mem_of_mem_take member)
  have sixteen : (utf8 (String.ofList (text.toList.take 16))).length = 16 := by
    rw [bytes _ front, List.length_take, hex.length]
    rfl
  have cut : utf8 text =
      utf8 (String.ofList (text.toList.take 16)) ++ utf8 (String.ofList (text.toList.drop 16)) := by
    rw [← utf8_append, ← String.ofList_append, List.take_append_drop, String.ofList_toList]
  refine ⟨String.ofList (text.toList.take 16), ?_, by rwa [String.toList_ofList]⟩
  rw [slice16, cut, List.length_append, sixteen, if_neg (by omega), List.take_left' sixteen, decode_utf8]

section
variable {SigningKey Value : Type} (E : Externals SigningKey Value) (build : Build) (cfg : BootConfig)

theorem bootLifecycle_eq : bootLifecycle = pure ⟨.running, [(.init, .boot), (.boot, .running)]⟩ := rfl

theorem bootKeyring_eq : ∃ ring, bootKeyring E cfg = pure ring ∧
    ring.keys["node-key"]? = some ⟨E.keys.fromBytes cfg.nodeSeed, .nodeIdentity⟩ ∧
    ring.list E.keys = [("agent-key", E.keys.publicOf cfg.agentSeed, .agentSigning),
      ("node-key", E.keys.publicOf cfg.nodeSeed, .nodeIdentity)] := by
  refine ⟨⟨((∅ : BTreeMap String _).insert "node-key" ⟨E.keys.fromBytes cfg.nodeSeed, .nodeIdentity⟩).insert
    "agent-key" ⟨E.keys.fromBytes cfg.agentSeed, .agentSigning⟩⟩, ?_, ?_, ?_⟩
  · rfl
  · rfl
  · rfl

theorem bootSnapshot_eq (state : StateStore) : bootSnapshot E state (state.stateRoot E.shaHex) =
    pure (.fromState E.shaHex 1 "genesis-0001" state) := by
  rw [bootSnapshot, Snapshot.fromState_verifies]
  rfl

theorem bootSandbox_eq : bootSandbox E build = pure () := by
  cases build <;> rfl

/-- The message has the fields its schema asks for. -/
def Externals.HasFields : Prop := (E.get E.payload "action").isSome ∧ (E.get E.payload "params").isSome

theorem checkSchema_payload (msg : Ai.IpcMessage Value) (named : msg.msgType = "propose_tx")
    (carries : msg.payload = E.payload) : Ai.IpcGateway.checkSchema E.ai msg = .ok () ↔ E.HasFields := by
  have required : Ai.schemas.find? (·.1 == "propose_tx") = some ("propose_tx", ["action", "params"]) := by decide
  rw [Ai.IpcGateway.checkSchema, named, required, carries]
  dsimp only [Externals.ai, Externals.HasFields]
  cases action : E.get E.payload "action" <;> cases params : E.get E.payload "params" <;>
    simp [List.find?, action, params]

theorem deliver_ends (ipc : Ai.IpcGateway) (msg : Ai.IpcMessage Value) (named : msg.msgType = "propose_tx")
    (carries : msg.payload = E.payload) {types : List String} (known : ipc.capabilities[msg.fromAgent]? = some types)
    (may : types.contains msg.msgType = true) (fresh : (ipc.lastSeq[msg.fromAgent]?).getD 0 < msg.seq)
    (sealed : ipc.audit.verify E.shaHex = true) :
    (E.HasFields ∧ ∃ receipt next, ipc.deliver E.ai msg = (.ok receipt, next) ∧ next.audit.verify E.shaHex = true) ∨
      ¬ E.HasFields ∧ ∃ e next, ipc.deliver E.ai msg = (.error e, next) := by
  have schema := checkSchema_payload E msg named carries
  obtain ⟨e, kind, detail, refused, delivered⟩ | ⟨accepted, delivered⟩ :=
    Ai.IpcGateway.deliver_spec (E := E.ai) ipc msg
  · refine .inr ⟨fun fields => ?_, e, _, delivered⟩
    rw [known, Ai.IpcGateway.decision, may, if_neg (not_not_intro rfl), if_neg (UInt64.not_le.mpr fresh),
      schema.mpr fields] at refused
    cases refused
  · exact .inl ⟨schema.mp (Ai.IpcGateway.decision_ok accepted).2.2.1, _, _, delivered,
      Ai.AuditPipeline.verify_record E.shaHex sealed _ _ _⟩

/-- Without the fields the message is turned down, and the boot with it. -/
theorem bootIpc_ends : (E.HasFields ∧ ∃ ipc, bootIpc E = pure ipc ∧ ipc.audit.verify E.shaHex = true) ∨
    ¬ E.HasFields ∧ ∃ detail, bootIpc E = throw (fail "ipc" detail) := by
  have new : Ai.AuditPipeline.new.verify E.shaHex = true := rfl
  have may : ["propose_tx", "query_state"].contains "propose_tx" = true := by decide
  have fresh : (0 : UInt64) < 1 := by decide
  obtain ⟨fields, receipt, next, delivered, sealed⟩ | ⟨missing, e, next, delivered⟩ :=
    deliver_ends E (Ai.IpcGateway.new.registerAgent E.ai "kai-agent-1" ["propose_tx", "query_state"])
      ⟨"kai-agent-1", "propose_tx", 1, E.payload⟩ rfl rfl Std.ExtTreeMap.getElem?_insert_self may fresh
      (Ai.AuditPipeline.verify_record E.shaHex new _ _ _)
  · refine .inl ⟨fields, next, ?_, sealed⟩
    rw [bootIpc, delivered]
    simp only [check, pure_bind, demand]
    rw [sealed]
    rfl
  · refine .inr ⟨missing, e.display, ?_⟩
    rw [bootIpc, delivered]
    rfl

/-- The id of the boot's proposal. -/
def Externals.proposalId : String := Ai.Submission.id E.ai ⟨"kai-agent-1", "propose_tx", E.payload⟩

theorem submit_entered : ∃ proposals : Ai.ProposalRegistry Value,
    Ai.ProposalRegistry.new.submit E.ai ⟨"kai-agent-1", "propose_tx", E.payload⟩ = (E.proposalId, proposals) ∧
    proposals.proposals[E.proposalId]? =
      some ⟨E.proposalId, "kai-agent-1", "propose_tx", E.payload, .proposed⟩ ∧
    proposals.audit.verify E.shaHex = true := by
  have new : Ai.AuditPipeline.new.verify E.shaHex = true := rfl
  refine ⟨⟨(∅ : BTreeMap String _).insert E.proposalId _,
    (Ai.AuditPipeline.new.record E.shaHex "kai-agent-1" "proposal_submitted" E.proposalId).2⟩, ?_,
    Std.ExtTreeMap.getElem?_insert_self, Ai.AuditPipeline.verify_record E.shaHex new _ _ _⟩
  have unknown : (Ai.ProposalRegistry.new : Ai.ProposalRegistry Value).proposals.contains E.proposalId ≠ true := by
    rw [Ai.ProposalRegistry.new, Std.ExtTreeMap.contains_empty]
    exact Bool.false_ne_true
  rw [Ai.ProposalRegistry.submit]
  dsimp only
  rw [← Externals.proposalId, if_neg unknown]
  rfl

theorem mark_done (r : Ai.ProposalRegistry Value) {id : String} {p : Ai.Proposal Value}
    (held : r.proposals[id]? = some p) (sealed : r.audit.verify E.shaHex = true) (target : Ai.ProposalState)
    (event : String) : ∃ next, r.mark E.ai p.state target event id = (.ok (), next) ∧
      next.proposals[id]? = some { p with state := target } ∧ next.audit.verify E.shaHex = true := by
  refine ⟨⟨r.proposals.insert id { p with state := target },
    (r.audit.record E.shaHex "proposal-registry" event id).2⟩, ?_, Std.ExtTreeMap.getElem?_insert_self,
    Ai.AuditPipeline.verify_record E.shaHex sealed _ event id⟩
  rw [Ai.ProposalRegistry.mark, held]
  exact if_neg (not_not_intro rfl)

theorem bootProposal_eq : ∃ proposals, bootProposal E = pure (E.proposalId, proposals) ∧
    proposals.proposals[E.proposalId]? =
      some ⟨E.proposalId, "kai-agent-1", "propose_tx", E.payload, .handedToVM⟩ ∧
    proposals.audit.verify E.shaHex = true := by
  obtain ⟨proposals, entered, held, sealed⟩ := submit_entered E
  obtain ⟨specified, first, held, sealed⟩ := mark_done E proposals held sealed .specified "proposal_specified"
  obtain ⟨handed, second, held, sealed⟩ := mark_done E specified held sealed .handedToVM "proposal_handed_to_vm"
  refine ⟨handed, ?_, held, sealed⟩
  have reached : (handed.proposals[E.proposalId]?).map (·.state) = some .handedToVM := by rw [held, Option.map_some]
  rw [bootProposal, entered]
  simp only [Ai.ProposalRegistry.markSpecified, Ai.ProposalRegistry.markHandedToVM, first, second, check, pure_bind,
    demand, reached, decide_true, if_true]

theorem bootHealth_eq : ∃ watchdog gossip, bootHealth = pure (watchdog, gossip) ∧
    (∀ p ∈ services, watchdog.state p.1 = .ok .running) ∧
    gossip.snapshot "self" =
      [⟨"ai-runtime", .healthy, 0⟩, ⟨"node-daemon", .healthy, 0⟩, ⟨"vm-exec", .healthy, 0⟩] := by
  refine ⟨_, _, rfl, ?_, ?_⟩
  · decide
  · decide

/-- The signature that the node key gives to the proposal is accepted under the node's public key. -/
def Externals.Accepts : Prop := Keys.verify E.keys (E.keys.publicOf cfg.nodeSeed) (utf8 E.proposalId)
  (E.keys.ed25519.sign (E.keys.fromBytes cfg.nodeSeed) (utf8 E.proposalId)) = true

theorem bootSignature_ends {ring : Keys.Keyring SigningKey} {kind : Keys.KeyKind}
    (held : ring.keys["node-key"]? = some ⟨E.keys.fromBytes cfg.nodeSeed, kind⟩) :
    (E.Accepts cfg ∧ ∃ signature, bootSignature E ring E.proposalId = pure signature ∧
      Keys.verify E.keys (E.keys.publicOf cfg.nodeSeed) (utf8 E.proposalId) signature = true) ∨
    ¬ E.Accepts cfg ∧ ∃ detail, bootSignature E ring E.proposalId = throw (fail "signature" detail) := by
  let signature := E.keys.ed25519.sign (E.keys.fromBytes cfg.nodeSeed) (utf8 E.proposalId)
  have signed : bootSignature E ring E.proposalId = (demand "signature" "handoff signature does not verify"
      (Keys.verify E.keys (E.keys.publicOf cfg.nodeSeed) (utf8 E.proposalId) signature)).bind fun _ =>
        pure signature := by
    rw [bootSignature, Keys.Keyring.sign, Keys.Keyring.publicKey, held]
    rfl
  rw [signed, Externals.Accepts]
  cases accepted : Keys.verify E.keys (E.keys.publicOf cfg.nodeSeed) (utf8 E.proposalId) signature with
  | true => exact .inl ⟨rfl, _, rfl, accepted⟩
  | false => exact .inr ⟨Bool.false_ne_true, _, rfl⟩

end

/-- What the nine steps have checked, of a booted system as a whole. -/
structure Booted {SigningKey Value : Type} (E : Externals SigningKey Value) (cfg : BootConfig)
    (sys : BootedSystem SigningKey Value) (report : BootReport) : Prop where
  lifecycle : sys.lifecycle = ⟨.running, [(.init, .boot), (.boot, .running)]⟩
  keyring : sys.keyring.list E.keys = [("agent-key", E.keys.publicOf cfg.agentSeed, .agentSigning),
    ("node-key", E.keys.publicOf cfg.nodeSeed, .nodeIdentity)]
  state : sys.state = StateStore.new.applyAll cfg.txs
  root : sys.stateRoot = sys.state.stateRoot E.shaHex
  snapshot : sys.snapshot.verifyAgainst E.shaHex 1 sys.stateRoot = .ok ()
  restores : sys.snapshot.toState = sys.state
  ipc : sys.ipc.audit.verify E.shaHex = true
  handed : sys.proposals.proposals[sys.proposalId]? =
    some ⟨sys.proposalId, "kai-agent-1", "propose_tx", E.payload, .handedToVM⟩
  trail : sys.proposals.audit.verify E.shaHex = true
  signed : Keys.verify E.keys (E.keys.publicOf cfg.nodeSeed) (utf8 sys.proposalId) sys.proposalSignature = true
  health : ∀ p ∈ services, sys.watchdog.state p.1 = .ok .running
  gossip : sys.gossip.snapshot "self" =
    [⟨"ai-runtime", .healthy, 0⟩, ⟨"node-daemon", .healthy, 0⟩, ⟨"vm-exec", .healthy, 0⟩]
  steps : report.steps.map Prod.fst = ["lifecycle", "keyring", "state", "snapshot", "sandbox", "ipc", "proposal",
    "signature", "health"]
  ok : report.ok = true

theorem not_fail {start text : String} (free : Fields.Free 'F' start) {c : Char} (other : c ≠ 'F') (rest : List Char)
    (same : text.toList = start.toList ++ c :: rest) : "FAIL".toList.isPrefixOf text.toList = false := by
  rw [same]
  cases first : start.toList with
  | nil => simp [List.isPrefixOf, other.symm]
  | cons d ds =>
      have other : d ≠ 'F' := fun same => free (first ▸ same ▸ List.mem_cons_self)
      simp [List.isPrefixOf, other.symm]

theorem report_ok (size : ℕ) (rootStart : String) {idStart : String} (free : Fields.Free 'F' idStart) :
    (bootReport size rootStart idStart).ok = true := by
  have blank : ' ' ≠ 'F' := by decide
  have state : "FAIL".toList.isPrefixOf s!"{size} entries, root {rootStart}".toList = false := by
    refine not_fail (Fields.free_decimal (by decide) size) blank ("entries, root ".toList ++ rootStart.toList) ?_
    rw [String.toList_append, String.toList_append, List.append_assoc]
    rfl
  have proposal : "FAIL".toList.isPrefixOf s!"{idStart} HandedToVM".toList = false := by
    refine not_fail free blank "HandedToVM".toList ?_
    rw [String.toList_append]
    rfl
  simp only [bootReport, BootReport.ok, List.all_cons, state, proposal]
  decide

/-- The system and the report from what the steps give. -/
def assembled {SigningKey Value : Type} (E : Externals SigningKey Value) (ring : Keys.Keyring SigningKey)
    (watchdog : Health.Watchdog) (ipc : Ai.IpcGateway) (proposals : Ai.ProposalRegistry Value)
    (signature : U8Array 64) (gossip : Health.HealthGossip) (txs : List Tx) (rootStart idStart : String) :
    BootedSystem SigningKey Value × BootReport :=
  let state := StateStore.new.applyAll txs
  (⟨⟨.running, [(.init, .boot), (.boot, .running)]⟩, ring, state, .fromState E.shaHex 1 "genesis-0001" state,
    state.stateRoot E.shaHex, watchdog, ipc, proposals, E.proposalId, signature, gossip⟩,
    bootReport state.entries.size rootStart idStart)

/-- What the log does not touch, and how the rest comes from it. -/
theorem boot_form {SigningKey Value : Type} (E : Externals SigningKey Value) (build : Build) (cfg : BootConfig) :
    ∃ ring proposals watchdog gossip idStart, Fields.Free 'F' idStart ∧ slice16 E.proposalId = some idStart ∧
      ring.keys["node-key"]? = some ⟨E.keys.fromBytes cfg.nodeSeed, .nodeIdentity⟩ ∧
      ring.list E.keys = [("agent-key", E.keys.publicOf cfg.agentSeed, .agentSigning),
        ("node-key", E.keys.publicOf cfg.nodeSeed, .nodeIdentity)] ∧
      bootProposal E = pure (E.proposalId, proposals) ∧ bootHealth = pure (watchdog, gossip) ∧
      ∀ txs, ∃ rootStart, slice16 ((StateStore.new.applyAll txs).stateRoot E.shaHex) = some rootStart ∧
        boot E build ⟨cfg.nodeSeed, cfg.agentSeed, txs⟩ =
          ((bootIpc E).bind fun ipc => (bootSignature E ring E.proposalId).bind fun signature =>
            pure (assembled E ring watchdog ipc proposals signature gossip txs rootStart idStart)).run := by
  obtain ⟨idStart, cut', idDigits⟩ := slice16_hexText (show HexText E.proposalId from E.hexText _)
  obtain ⟨ring, keyring, held, listed⟩ := bootKeyring_eq E cfg
  obtain ⟨proposals, proposal, -, -⟩ := bootProposal_eq E
  obtain ⟨watchdog, gossip, health, -, -⟩ := bootHealth_eq
  have free : Fields.Free 'F' idStart := fun member => absurd (idDigits _ member) (by decide)
  refine ⟨ring, proposals, watchdog, gossip, idStart, free, cut', held, listed, proposal, health, fun txs => ?_⟩
  obtain ⟨rootStart, cut, -⟩ := slice16_hexText (hexText_stateRoot E (StateStore.new.applyAll txs))
  have lifted {α : Type} (a : α) : (ExceptT.lift (some a) : Part α) = pure a := rfl
  have same : bootKeyring E ⟨cfg.nodeSeed, cfg.agentSeed, txs⟩ = pure ring := keyring
  refine ⟨rootStart, cut, ?_⟩
  simp only [boot, bootLifecycle_eq, same, bootSnapshot_eq, bootSandbox_eq, proposal, health, pure_bind, cut, cut',
    lifted]
  rfl

theorem boot_completes {SigningKey Value : Type} {E : Externals SigningKey Value} (build : Build) {cfg : BootConfig}
    (fields : E.HasFields) (accepts : E.Accepts cfg) :
    ∃ sys report, boot E build cfg = some (.ok (sys, report)) ∧ Booted E cfg sys report := by
  obtain ⟨ring, proposals, watchdog, gossip, idStart, free, -, held, listed, proposal, health, form⟩ :=
    boot_form E build cfg
  obtain ⟨rootStart, -, whole⟩ := form cfg.txs
  obtain ⟨proposals', proposal', handed, trail⟩ := bootProposal_eq E
  obtain ⟨watchdog', gossip', health', running, snapshot⟩ := bootHealth_eq
  cases proposal.symm.trans proposal'
  cases health.symm.trans health'
  obtain ⟨-, ipc, delivered, sealed⟩ | ⟨missing, -⟩ := bootIpc_ends E
  · obtain ⟨-, signature, signed, accepted⟩ | ⟨refuses, -⟩ := bootSignature_ends E cfg held
    · rw [delivered, signed] at whole
      refine ⟨_, _, whole, ?_⟩
      exact {
        lifecycle := rfl
        keyring := listed
        state := rfl
        root := rfl
        snapshot := Snapshot.fromState_verifies _ _ _
        restores := Snapshot.toState_fromState _ _ _
        ipc := sealed
        handed := handed
        trail := trail
        signed := accepted
        health := running
        gossip := snapshot
        steps := rfl
        ok := report_ok _ _ free }
    · exact absurd accepts refuses
  · exact absurd fields missing

/-- On every transaction log the boot is completed with all its invariants, or it ends with the error of a step. -/
theorem boot_completes_or_fails {SigningKey Value : Type} (E : Externals SigningKey Value) (build : Build)
    (cfg : BootConfig) :
    (E.HasFields ∧ E.Accepts cfg →
      ∃ sys report, boot E build cfg = some (.ok (sys, report)) ∧ Booted E cfg sys report) ∧
    (E.HasFields ∧ ¬ E.Accepts cfg → ∃ detail, boot E build cfg = some (.error (fail "signature" detail))) ∧
    (¬ E.HasFields → ∃ detail, boot E build cfg = some (.error (fail "ipc" detail))) := by
  obtain ⟨ring, proposals, watchdog, gossip, idStart, -, -, held, -, -, -, form⟩ := boot_form E build cfg
  obtain ⟨rootStart, -, whole⟩ := form cfg.txs
  refine ⟨fun both => boot_completes build both.1 both.2, ?_⟩
  rw [show boot E build cfg = _ from whole]
  obtain ⟨fields, ipc, delivered, -⟩ | ⟨missing, detail, failed⟩ := bootIpc_ends E
  · refine ⟨fun both => ?_, fun missing => absurd fields missing⟩
    obtain ⟨accepts, -⟩ | ⟨-, detail, failed⟩ := bootSignature_ends E cfg held
    · exact absurd accepts both.2
    · rw [delivered]
      refine ⟨detail, ?_⟩
      rw [failed]
      rfl
  · rw [failed]
    exact ⟨fun both => absurd both.1 missing, fun _ => ⟨detail, rfl⟩⟩

section
variable {SigningKey Value : Type} {E : Externals SigningKey Value} {build : Build} {cfg : BootConfig}
  {sys : BootedSystem SigningKey Value} {report : BootReport}

theorem boot_ok (booted : boot E build cfg = some (.ok (sys, report))) :
    ∃ idStart, slice16 E.proposalId = some idStart ∧ ∃ ipc, bootIpc E = pure ipc ∧
    ∃ proposals, bootProposal E = pure (E.proposalId, proposals) ∧
    ∃ watchdog gossip, bootHealth = pure (watchdog, gossip) ∧
    ∃ ring signature, ∀ txs, ∃ rootStart,
      slice16 ((StateStore.new.applyAll txs).stateRoot E.shaHex) = some rootStart ∧
      boot E build ⟨cfg.nodeSeed, cfg.agentSeed, txs⟩ =
        some (.ok (assembled E ring watchdog ipc proposals signature gossip txs rootStart idStart)) := by
  obtain ⟨ring, proposals, watchdog, gossip, idStart, -, cut, held, -, proposal, health, form⟩ :=
    boot_form E build cfg
  obtain ⟨rootStart, -, whole⟩ := form cfg.txs
  rw [show boot E build cfg = _ from whole] at booted
  obtain ⟨-, ipc, delivered, -⟩ | ⟨-, detail, failed⟩ := bootIpc_ends E
  · rw [delivered] at booted
    obtain ⟨-, signature, signed, -⟩ | ⟨-, detail, failed⟩ := bootSignature_ends E cfg held
    · refine ⟨idStart, cut, ipc, delivered, proposals, proposal, watchdog, gossip, health, ring, signature,
        fun txs => ?_⟩
      obtain ⟨rootStart, start, whole⟩ := form txs
      refine ⟨rootStart, start, ?_⟩
      rw [whole, delivered, signed]
      rfl
    · rw [failed] at booted
      cases booted
  · rw [failed] at booted
    cases booted

theorem hexText_hex (text : String) : HexText (Sha256.hex text) := by
  have word (w : ℕ) : (Sha256.hexWord w).length = 8 := rfl
  constructor
  · rw [Sha256.hex, String.toList_ofList]
    simp only [List.length_flatMap, word, List.map_const', Sha256.digest_length]
    rfl
  · intro c member
    rw [Sha256.hex, String.toList_ofList, List.mem_flatMap] at member
    obtain ⟨w, -, inside⟩ := member
    obtain ⟨i, -, rfl⟩ := List.mem_map.mp inside
    have digit : ∀ n < 16, Nat.digitChar n ∈ "0123456789abcdef".toList := by decide
    exact digit _ (Nat.mod_lt _ (by decide))

/-- Values that are the names of their fields, and signatures that are all accepted. -/
def plain : Externals Unit (List String) where
  shaHex := Sha256.hex
  hexText := hexText_hex
  keys.fromBytes _ := ()
  keys.ed25519 := ⟨fun _ => ⟨List.replicate 32 0, rfl⟩, fun _ _ => ⟨List.replicate 64 0, rfl⟩, fun _ _ _ => true⟩
  get value field := if value.contains field then some [] else none
  text := String.intercalate ","
  payload := ["action", "params"]

/-- A boot from a longer log is the earlier system with the rest of the log applied to its snapshot, and the earlier
report but for the line on the state. The seeds have no part in anything but the keys and the signature. -/
theorem boot_replays (booted : boot E build cfg = some (.ok (sys, report))) :
    (∀ more, ∃ rootStart, slice16 ((sys.snapshot.toState.applyAll more).stateRoot E.shaHex) = some rootStart ∧
      boot E build { cfg with txs := cfg.txs ++ more } = some (.ok ({ sys with
          state := sys.snapshot.toState.applyAll more
          stateRoot := (sys.snapshot.toState.applyAll more).stateRoot E.shaHex
          snapshot := .fromState E.shaHex 1 "genesis-0001" (sys.snapshot.toState.applyAll more) },
        ⟨report.steps.set 2
          ("state", s!"{(sys.snapshot.toState.applyAll more).entries.size} entries, root {rootStart}")⟩))) ∧
    ∀ nodeSeed agentSeed sys' report', boot E build ⟨nodeSeed, agentSeed, cfg.txs⟩ = some (.ok (sys', report')) →
      report' = report ∧
      sys' = { sys with keyring := sys'.keyring, proposalSignature := sys'.proposalSignature } := by
  obtain ⟨idStart, cut, ipc, delivered, proposals, proposal, watchdog, gossip, health, ring, signature, form⟩ :=
    boot_ok booted
  obtain ⟨rootStart, start, whole⟩ := form cfg.txs
  cases booted.symm.trans whole
  refine ⟨fun more => ?_, fun nodeSeed agentSeed sys' report' other => ?_⟩
  · obtain ⟨rootStart, start, whole⟩ := form (cfg.txs ++ more)
    dsimp only
    rw [Snapshot.toState_fromState, ← StateStore.applyAll_append]
    exact ⟨rootStart, start, whole⟩
  · obtain ⟨idStart', cut', ipc', delivered', proposals', proposal', watchdog', gossip', health', ring', signature',
      form'⟩ := boot_ok other
    obtain ⟨rootStart', start', whole'⟩ := form' cfg.txs
    cases other.symm.trans whole'
    cases cut.symm.trans cut'
    cases start.symm.trans start'
    cases delivered.symm.trans delivered'
    cases proposal.symm.trans proposal'
    cases health.symm.trans health'
    exact ⟨rfl, rfl⟩

def seedOf (byte : UInt8) : U8Array 32 := ⟨List.replicate 32 byte, rfl⟩

theorem boot_replays_plain :
    ∃ sys report, boot plain .release ⟨seedOf 1, seedOf 2, [.set "a" "1"]⟩ = some (.ok (sys, report)) ∧
    let state := sys.snapshot.toState.applyAll [.remove "a"]
    ∃ rootStart, slice16 (state.stateRoot Sha256.hex) = some rootStart ∧
      boot plain .release ⟨seedOf 1, seedOf 2, [.set "a" "1", .remove "a"]⟩ = some (.ok ({ sys with
          state
          stateRoot := state.stateRoot Sha256.hex
          snapshot := .fromState Sha256.hex 1 "genesis-0001" state },
        ⟨report.steps.set 2 ("state", s!"{state.entries.size} entries, root {rootStart}")⟩)) := by
  have fields : plain.HasFields := ⟨by decide, by decide⟩
  have accepts (cfg : BootConfig) : plain.Accepts cfg := rfl
  obtain ⟨sys, report, booted, -⟩ := boot_completes .release fields (accepts ⟨_, _, _⟩)
  exact ⟨sys, report, booted, (boot_replays booted).1 [.remove "a"]⟩

end
end Integration
end KaiOs
