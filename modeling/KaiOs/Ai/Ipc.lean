import KaiOs.Ai.Audit
import KaiOs.Lib.Traces
import KaiOs.State.Merkle

/-! `ai/src/ipc.rs`: the gateway between agents and the runtime. A message passes five gates
in order, and every call leaves an event in the audit trail. -/
namespace KaiOs.Ai

/-- Message types with the fields their payload needs. -/
def schemas : List (String × List String) :=
  [("propose_tx", ["action", "params"]), ("propose_decision", ["topic", "recommendation"]),
    ("query_state", ["key"]), ("register_model", ["model_id", "version"])]

structure IpcMessage (Value : Type) where
  fromAgent : String
  msgType : String
  seq : UInt64
  payload : Value

inductive IpcError where
  | unknownAgent (agent : String)
  | capabilityDenied (agent msgType : String)
  | replay (seq last : UInt64)
  | schemaViolation (msgType missing : String)
  deriving DecidableEq

structure DeliveryReceipt where
  seq : UInt64
  auditSeq : UInt64
  deriving DecidableEq

structure IpcGateway where
  capabilities : BTreeMap String (List String)
  lastSeq : BTreeMap String UInt64
  audit : AuditPipeline

namespace IpcGateway
variable {Value : Type} (E : AiExternals Value)

def new : IpcGateway := ⟨∅, ∅, .new⟩

def registerAgent (g : IpcGateway) (agentId : String) (msgTypes : List String) : IpcGateway :=
  { g with
    capabilities := g.capabilities.insert agentId msgTypes
    audit := (g.audit.record E.shaHex "ipc-gateway" "agent_registered" agentId).2 }

/-- The first required field that is missing is reported; an unlisted type has none. -/
def checkSchema (msg : IpcMessage Value) : Except IpcError Unit :=
  match schemas.find? (·.1 == msg.msgType) with
  | none => .ok ()
  | some (_, required) =>
      match required.find? fun field => (E.get msg.payload field).isNone with
      | some field => .error (.schemaViolation msg.msgType field)
      | none => .ok ()

/-- The record that a rejected message leaves. -/
def reject (g : IpcGateway) (kind detail : String) : IpcGateway :=
  { g with audit := (g.audit.record E.shaHex "ipc-gateway" kind detail).2 }

def deliver (g : IpcGateway) (msg : IpcMessage Value) : Except IpcError DeliveryReceipt × IpcGateway :=
  match g.capabilities[msg.fromAgent]? with
  | none => (.error (.unknownAgent msg.fromAgent), g.reject E "rejected_unknown_agent" msg.fromAgent)
  | some caps =>
      if ¬ caps.contains msg.msgType then
        (.error (.capabilityDenied msg.fromAgent msg.msgType),
          g.reject E "rejected_capability" s!"{msg.fromAgent}|{msg.msgType}")
      else
        let last := (g.lastSeq[msg.fromAgent]?).getD 0
        if msg.seq ≤ last then
          (.error (.replay msg.seq last), g.reject E "rejected_replay" s!"{msg.fromAgent}|{msg.seq}")
        else match checkSchema E msg with
          | .error e => (.error e, g.reject E "rejected_schema" s!"{msg.fromAgent}|{msg.msgType}")
          | .ok () =>
              let (auditSeq, audit) :=
                g.audit.record E.shaHex msg.fromAgent msg.msgType (E.text msg.payload)
              (.ok ⟨msg.seq, auditSeq⟩,
                ⟨g.capabilities, g.lastSeq.insert msg.fromAgent msg.seq, audit⟩)

/-- The gates without the record: what becomes of a message, given what is known of its sender. -/
def decision (caps : Option (List String)) (last : UInt64) (msg : IpcMessage Value) :
    Except IpcError UInt64 :=
  match caps with
  | none => .error (.unknownAgent msg.fromAgent)
  | some types =>
      if ¬ types.contains msg.msgType then .error (.capabilityDenied msg.fromAgent msg.msgType)
      else if msg.seq ≤ last then .error (.replay msg.seq last)
      else (checkSchema E msg).map fun _ => msg.seq

variable {E}

theorem decision_ok {caps : Option (List String)} {last seq : UInt64} {msg : IpcMessage Value}
    (h : decision E caps last msg = .ok seq) :
    (∃ types, caps = some types ∧ msg.msgType ∈ types) ∧ last < msg.seq ∧
      checkSchema E msg = .ok () ∧ seq = msg.seq := by
  cases caps with
  | none => cases h
  | some types =>
      simp only [decision] at h
      split_ifs at h with permitted fresh
      cases schema : checkSchema E msg with
      | error e =>
          rw [schema] at h
          cases h
      | ok u =>
          rw [schema] at h
          cases h
          exact ⟨⟨types, rfl, List.contains_iff_mem.mp permitted⟩, UInt64.not_le.mp fresh, rfl, rfl⟩

/-- A delivery in terms of the decision: a rejected message only leaves a record. -/
theorem deliver_spec (g : IpcGateway) (msg : IpcMessage Value) :
    (∃ e kind detail,
      decision E g.capabilities[msg.fromAgent]? ((g.lastSeq[msg.fromAgent]?).getD 0) msg = .error e ∧
      deliver E g msg = (.error e, g.reject E kind detail)) ∨
    (decision E g.capabilities[msg.fromAgent]? ((g.lastSeq[msg.fromAgent]?).getD 0) msg = .ok msg.seq ∧
      deliver E g msg =
        (.ok ⟨msg.seq, (g.audit.record E.shaHex msg.fromAgent msg.msgType (E.text msg.payload)).1⟩,
          ⟨g.capabilities, g.lastSeq.insert msg.fromAgent msg.seq,
            (g.audit.record E.shaHex msg.fromAgent msg.msgType (E.text msg.payload)).2⟩)) := by
  simp only [decision, deliver]
  cases g.capabilities[msg.fromAgent]? with
  | none => exact .inl ⟨_, _, _, rfl, rfl⟩
  | some caps =>
      simp only []
      split_ifs with permitted fresh
      · exact .inl ⟨_, _, _, rfl, rfl⟩
      · cases checkSchema E msg with
        | error e => exact .inl ⟨_, _, _, rfl, rfl⟩
        | ok u => exact .inr ⟨rfl, rfl⟩
      · exact .inl ⟨_, _, _, rfl, rfl⟩

end IpcGateway
end KaiOs.Ai
