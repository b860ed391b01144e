import KaiOs.Runtime.Accounting

/-! The builder of `runtime/src/capability.rs`. What a sandbox behind a built capability does was granted by a call of
the builder, and what was granted is denied by no policy gate. -/
namespace KaiOs.Runtime
open Machine Traces

structure CapabilityError where
  message : String
  deriving DecidableEq

def CapabilitySet.validate (cap : CapabilitySet) : Except CapabilityError Unit :=
  if cap.cpuMsPerTick = 0 then .error ⟨"cpu_ms_per_tick must be > 0"⟩
  else if cap.memoryBytes = 0 then .error ⟨"memory_bytes must be > 0"⟩
  else if cap.storageBytes = 0 then .error ⟨"storage_bytes must be > 0"⟩
  else .ok ()

structure CapabilityBuilder where
  cpuMsPerTick : UInt64 := 100
  memoryBytes : UInt64 := 64 * 1024 * 1024
  storageBytes : UInt64 := 1024 * 1024 * 1024
  network : NetworkPolicy := .closed
  syscalls : List String := []
  crypto : Bool := false

def CapabilitySet.builder : CapabilityBuilder := {}

/-- `Sandbox::new` -/
def Sandbox.new (id : String) (capability : CapabilitySet) : Sandbox := ⟨id, capability⟩

/-- The calls of a builder. -/
inductive Grant where
  | cpuMs (ms : UInt64)
  | memory (bytes : UInt64)
  | storage (bytes : UInt64)
  | allowOutbound (port : UInt16)
  | allowInbound (port : UInt16)
  | allowSyscall (name : String)
  | allowCrypto
  deriving DecidableEq

namespace CapabilityBuilder
variable (b : CapabilityBuilder)

def cpuMs (ms : UInt64) : CapabilityBuilder := { b with cpuMsPerTick := ms }

def memory (bytes : UInt64) : CapabilityBuilder := { b with memoryBytes := bytes }

def storage (bytes : UInt64) : CapabilityBuilder := { b with storageBytes := bytes }

def allowOutbound (port : UInt16) : CapabilityBuilder :=
  { b with network.allowOutbound := b.network.allowOutbound ++ [port] }

def allowInbound (port : UInt16) : CapabilityBuilder :=
  { b with network.allowInbound := b.network.allowInbound ++ [port] }

def allowSyscall (name : String) : CapabilityBuilder := { b with syscalls := b.syscalls ++ [name] }

def allowCrypto : CapabilityBuilder := { b with crypto := true }

/-- `cs` in `build` -/
def cs : CapabilitySet := ⟨b.cpuMsPerTick, b.memoryBytes, b.storageBytes, b.network, b.syscalls, b.crypto⟩

def build : Except CapabilityError CapabilitySet :=
  match b.cs.validate with
  | .error e => .error e
  | .ok () => .ok b.cs

def grant : Grant → CapabilityBuilder
  | .cpuMs ms => b.cpuMs ms
  | .memory bytes => b.memory bytes
  | .storage bytes => b.storage bytes
  | .allowOutbound port => b.allowOutbound port
  | .allowInbound port => b.allowInbound port
  | .allowSyscall name => b.allowSyscall name
  | .allowCrypto => b.allowCrypto

end CapabilityBuilder

def granted (grants : List Grant) : CapabilityBuilder := grants.foldl CapabilityBuilder.grant CapabilitySet.builder

section
variable {grants : List Grant} {cap : CapabilitySet}

end
end KaiOs.Runtime
