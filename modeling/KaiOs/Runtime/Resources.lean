import KaiOs.Lib.Machine
import KaiOs.State.Merkle

/-! `runtime/src/capability.rs` and `runtime/src/resources.rs`: what a sandbox is granted and
what it has used. Functions that add or subtract depend on the build; `none` is a panic. -/
namespace KaiOs.Runtime
open Machine

structure NetworkPolicy where
  allowOutbound : List UInt16
  allowInbound : List UInt16
  deriving DecidableEq

namespace NetworkPolicy

def closed : NetworkPolicy := ⟨[], []⟩

def allowsOutbound (policy : NetworkPolicy) (port : UInt16) : Bool := policy.allowOutbound.contains port

def allowsInbound (policy : NetworkPolicy) (port : UInt16) : Bool := policy.allowInbound.contains port

end NetworkPolicy

structure CapabilitySet where
  cpuMsPerTick : UInt64
  memoryBytes : UInt64
  storageBytes : UInt64
  network : NetworkPolicy
  syscalls : List String
  crypto : Bool
  deriving DecidableEq

def CapabilitySet.allowsSyscall (cap : CapabilitySet) (name : String) : Bool :=
  cap.syscalls.any (· == name)

structure ResourceUsage where
  cpuMsUsed : UInt64 := 0
  memoryBytesCurrent : UInt64 := 0
  storageBytesTotal : UInt64 := 0
  networkBytesOut : UInt64 := 0
  networkBytesIn : UInt64 := 0
  deriving DecidableEq

inductive ResourceError where
  | quotaExceeded (resource : String) (requested limit used : UInt64)
  | invalidFree (attempted current : UInt64)
  deriving DecidableEq

/-- The fields of a usage record. -/
inductive Counter where
  | cpu
  | memory
  | storage
  | networkOut
  | networkIn
  deriving DecidableEq

namespace ResourceUsage

def get (u : ResourceUsage) : Counter → UInt64
  | .cpu => u.cpuMsUsed
  | .memory => u.memoryBytesCurrent
  | .storage => u.storageBytesTotal
  | .networkOut => u.networkBytesOut
  | .networkIn => u.networkBytesIn

def set (u : ResourceUsage) (n : UInt64) : Counter → ResourceUsage
  | .cpu => { u with cpuMsUsed := n }
  | .memory => { u with memoryBytesCurrent := n }
  | .storage => { u with storageBytesTotal := n }
  | .networkOut => { u with networkBytesOut := n }
  | .networkIn => { u with networkBytesIn := n }

@[simp] theorem get_set_self (u : ResourceUsage) (n : UInt64) (c : Counter) : (u.set n c).get c = n := by
  cases c <;> rfl

theorem get_set_of_ne (u : ResourceUsage) (n : UInt64) {c d : Counter} (other : d ≠ c) :
    (u.set n c).get d = u.get d := by
  cases c <;> cases d <;> first | rfl | exact absurd rfl other

end ResourceUsage

structure ResourceManager where
  usage : BTreeMap String ResourceUsage

namespace ResourceManager

def new : ResourceManager := ⟨∅⟩

/-- The method `usage`; an unknown id reads as the default record. -/
def usageOf (rm : ResourceManager) (id : String) : ResourceUsage := rm.usage[id]?.getD {}

/-- The record is written back whole. -/
def put (rm : ResourceManager) (id : String) (u : ResourceUsage) : ResourceManager :=
  ⟨rm.usage.insert id u⟩

@[simp] theorem usageOf_new (id : String) : new.usageOf id = {} := by
  rw [usageOf, new, Std.ExtTreeMap.getElem?_empty, Option.getD_none]

theorem usageOf_put (rm : ResourceManager) (id k : String) (u : ResourceUsage) :
    (rm.put id u).usageOf k = if k = id then u else rm.usageOf k := by
  rw [usageOf, put, lookup_insert]
  simp only [eq_comm (a := k)]
  split_ifs
  · rfl
  · rfl

@[simp] theorem usageOf_put_self (rm : ResourceManager) (id : String) (u : ResourceUsage) :
    (rm.put id u).usageOf id = u := by
  rw [usageOf_put, if_pos rfl]

section
variable (build : Build)

/-- `self.entry(id).counter += amount`. -/
def book (counter : Counter) (rm : ResourceManager) (id : String) (amount : UInt64) :
    Option ResourceManager :=
  (build.add ((rm.usageOf id).get counter) amount).map fun total =>
    rm.put id ((rm.usageOf id).set total counter)

/-- The check before the booking, the same for the three resources with a quota. -/
def charge (counter : Counter) (resource : String) (limit : UInt64) (rm : ResourceManager) (id : String)
    (amount : UInt64) : Option (Except ResourceError Unit × ResourceManager) :=
  let used := (rm.usageOf id).get counter
  (build.add used amount).bind fun total =>
    if total > limit then some (.error (.quotaExceeded resource amount limit used), rm)
    else (book build counter rm id amount).map fun rm' => (.ok (), rm')

def consumeCpu (rm : ResourceManager) (id : String) (ms : UInt64) (cap : CapabilitySet) :
    Option (Except ResourceError Unit × ResourceManager) :=
  charge build .cpu "cpu" cap.cpuMsPerTick rm id ms

def allocMemory (rm : ResourceManager) (id : String) (bytes : UInt64) (cap : CapabilitySet) :
    Option (Except ResourceError Unit × ResourceManager) :=
  charge build .memory "memory" cap.memoryBytes rm id bytes

def freeMemory (rm : ResourceManager) (id : String) (bytes : UInt64) :
    Option (Except ResourceError Unit × ResourceManager) :=
  let current := (rm.usageOf id).memoryBytesCurrent
  if bytes > current then some (.error (.invalidFree bytes current), rm)
  else (build.sub current bytes).map fun left =>
    (.ok (), rm.put id { rm.usageOf id with memoryBytesCurrent := left })

def consumeStorage (rm : ResourceManager) (id : String) (bytes : UInt64) (cap : CapabilitySet) :
    Option (Except ResourceError Unit × ResourceManager) :=
  charge build .storage "storage" cap.storageBytes rm id bytes

def recordNetworkOut (rm : ResourceManager) (id : String) (bytes : UInt64) : Option ResourceManager :=
  book build .networkOut rm id bytes

def recordNetworkIn (rm : ResourceManager) (id : String) (bytes : UInt64) : Option ResourceManager :=
  book build .networkIn rm id bytes

end

section
variable {build : Build} {c : Counter} {rm rm' : ResourceManager} {id : String} {n : UInt64}

/-- One addition decides, and what is booked is what was checked. -/
theorem charge_eq (resource : String) (limit : UInt64) :
    charge build c resource limit rm id n =
      (build.add ((rm.usageOf id).get c) n).map fun total =>
        if limit < total then
          (.error (.quotaExceeded resource n limit ((rm.usageOf id).get c)), rm)
        else (.ok (), rm.put id ((rm.usageOf id).set total c)) := by
  cases sum : build.add ((rm.usageOf id).get c) n with
  | none =>
      rw [charge, sum]
      rfl
  | some total =>
      rw [charge, sum, Option.bind_some, book, sum]
      split_ifs with above
      · rw [Option.map_some, if_pos above]
      · rw [Option.map_some, Option.map_some, Option.map_some, if_neg above]

theorem charge_cases {resource : String} {limit : UInt64} {result : Except ResourceError Unit}
    (h : charge build c resource limit rm id n = some (result, rm')) :
    ∃ total, build.add ((rm.usageOf id).get c) n = some total ∧
      (limit < total ∧ result = .error (.quotaExceeded resource n limit ((rm.usageOf id).get c)) ∧ rm' = rm ∨
        total ≤ limit ∧ result = .ok () ∧ rm' = rm.put id ((rm.usageOf id).set total c)) := by
  rw [charge_eq] at h
  obtain ⟨total, sum, h⟩ := Option.map_eq_some_iff.mp h
  refine ⟨total, sum, ?_⟩
  split_ifs at h with above <;> cases h
  · exact .inl ⟨above, rfl, rfl⟩
  · exact .inr ⟨UInt64.not_lt.mp above, rfl, rfl⟩

theorem charge_isSome (resource : String) (limit : UInt64) :
    (charge build c resource limit rm id n).isSome = (build.add ((rm.usageOf id).get c) n).isSome := by
  rw [charge_eq, Option.isSome_map]

theorem charge_congr {build' : Build}
    (same : build'.add ((rm.usageOf id).get c) n = build.add ((rm.usageOf id).get c) n) (resource : String)
    (limit : UInt64) : charge build' c resource limit rm id n = charge build c resource limit rm id n := by
  rw [charge_eq, charge_eq, same]

theorem book_cases (h : book build c rm id n = some rm') :
    ∃ total, build.add ((rm.usageOf id).get c) n = some total ∧
      rm' = rm.put id ((rm.usageOf id).set total c) := by
  obtain ⟨total, sum, rfl⟩ := Option.map_eq_some_iff.mp h
  exact ⟨total, sum, rfl⟩

theorem book_isSome :
    (book build c rm id n).isSome = (build.add ((rm.usageOf id).get c) n).isSome := Option.isSome_map

theorem book_congr {build' : Build}
    (same : build'.add ((rm.usageOf id).get c) n = build.add ((rm.usageOf id).get c) n) :
    book build' c rm id n = book build c rm id n := by
  rw [book, same, book]

/-- What is freed is checked before it is taken off. -/
theorem freeMemory_eq (build : Build) (rm : ResourceManager) (id : String) (bytes : UInt64) :
    freeMemory build rm id bytes =
      some (if (rm.usageOf id).memoryBytesCurrent < bytes then
          (.error (.invalidFree bytes (rm.usageOf id).memoryBytesCurrent), rm)
        else (.ok (), rm.put id
          ((rm.usageOf id).set ((rm.usageOf id).memoryBytesCurrent - bytes) .memory))) := by
  simp only [freeMemory]
  split_ifs with above
  · rfl
  · rw [Build.sub_of_le build (UInt64.not_lt.mp above), Option.map_some]
    rfl

theorem freeMemory_cases {bytes : UInt64} {result : Except ResourceError Unit}
    (h : freeMemory build rm id bytes = some (result, rm')) :
    (rm.usageOf id).memoryBytesCurrent < bytes ∧
        result = .error (.invalidFree bytes (rm.usageOf id).memoryBytesCurrent) ∧ rm' = rm ∨
      bytes ≤ (rm.usageOf id).memoryBytesCurrent ∧ result = .ok () ∧
        rm' = rm.put id ((rm.usageOf id).set ((rm.usageOf id).memoryBytesCurrent - bytes) .memory) := by
  rw [freeMemory_eq] at h
  split_ifs at h with above <;> cases h
  · exact .inl ⟨above, rfl, rfl⟩
  · exact .inr ⟨UInt64.not_lt.mp above, rfl, rfl⟩

end

def resetTick (rm : ResourceManager) : ResourceManager :=
  ⟨rm.usage.map fun _ u => { u with cpuMsUsed := 0 }⟩

/-- A reset reaches every record; the default record has nothing to reset. -/
theorem usageOf_resetTick (rm : ResourceManager) (id : String) :
    rm.resetTick.usageOf id = (rm.usageOf id).set 0 .cpu := by
  rw [usageOf, resetTick, Std.ExtTreeMap.getElem?_map, usageOf]
  cases rm.usage[id]? <;> rfl

end ResourceManager
end KaiOs.Runtime
