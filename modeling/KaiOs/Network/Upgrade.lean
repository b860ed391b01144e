import KaiOs.Lib.Codec
import Mathlib.Order.Interval.Set.Basic
import Mathlib.Order.Bounds.Basic

/-! `network/src/upgrade.rs`: the protocol versions of two nodes, the one they settle on, and the envelopes that
name theirs. What a node speaks is an interval of versions. -/
namespace KaiOs.Network
open Utf8

def protocolVersion : UInt32 := 2

def minCompatible : UInt32 := 1

structure ProtocolSupport where
  current : UInt32
  min : UInt32
  deriving DecidableEq

structure Hello where
  support : ProtocolSupport
  lastVerifiedRoot : String
  deriving DecidableEq

structure Negotiated where
  version : UInt32
  deriving DecidableEq

/-- The pairs are the current and the least version of a side. -/
inductive UpgradeError where
  | malformedSupport (current min : UInt32)
  | incompatible (ours theirs : UInt32 × UInt32) (resyncRootHint : String)
  | unknownEnvelopeVersion (found supportedUntil : UInt32)
  | envelopeTooOld (found min : UInt32)
  deriving DecidableEq

namespace ProtocolSupport

def ours : ProtocolSupport := ⟨protocolVersion, minCompatible⟩

def validate (s : ProtocolSupport) : Except UpgradeError Unit :=
  if s.min > s.current then .error (.malformedSupport s.current s.min) else .ok ()

end ProtocolSupport

def negotiate (ours theirs : Hello) : Except UpgradeError Negotiated := do
  ours.support.validate
  theirs.support.validate
  let shared := min ours.support.current theirs.support.current
  let required := max ours.support.min theirs.support.min
  if shared < required then
    .error (.incompatible (ours.support.current, ours.support.min) (theirs.support.current, theirs.support.min)
      theirs.lastVerifiedRoot)
  else .ok ⟨shared⟩

structure VersionedEnvelope where
  version : UInt32
  payload : Bytes
  deriving DecidableEq

namespace VersionedEnvelope

def encode (version : UInt32) (payload : Bytes) : VersionedEnvelope := ⟨version, payload⟩

def decodeChecked (env : VersionedEnvelope) (support : ProtocolSupport) : Except UpgradeError Bytes := do
  support.validate
  if env.version > support.current then .error (.unknownEnvelopeVersion env.version support.current)
  else if env.version < support.min then .error (.envelopeTooOld env.version support.min)
  else .ok env.payload

/-- `serde_json` prints an envelope and reads it. -/
def toWire (json : ByteCodec VersionedEnvelope) (env : VersionedEnvelope) : Bytes := json.toVec env

def fromWire (json : ByteCodec VersionedEnvelope) (bytes : Bytes) : Except UpgradeError VersionedEnvelope :=
  match json.fromSlice bytes with
  | some env => .ok env
  | none => .error (.unknownEnvelopeVersion 0 protocolVersion)

end VersionedEnvelope

/-- The versions a node speaks. -/
def ProtocolSupport.versions (s : ProtocolSupport) : Set ℕ := Set.Icc s.min.toNat s.current.toNat

section Support
variable {s : ProtocolSupport}

theorem validate_ok_iff : s.validate = .ok () ↔ s.min ≤ s.current := by
  unfold ProtocolSupport.validate
  split_ifs with crossed
  · exact iff_of_false (fun h => by cases h) (UInt32.not_le.mpr crossed)
  · exact iff_of_true rfl (UInt32.not_lt.mp crossed)

theorem validate_error {e : UpgradeError} (h : s.validate = .error e) : s.versions = ∅ := by
  have crossed : ¬s.min ≤ s.current := by
    rw [← validate_ok_iff, h]
    exact fun same => by cases same
  rw [ProtocolSupport.versions, Set.Icc_eq_empty_iff]
  rwa [UInt32.le_iff_toNat_le] at crossed

theorem mem_versions_iff (v : UInt32) : v.toNat ∈ s.versions ↔ s.min ≤ v ∧ v ≤ s.current := by
  rw [UInt32.le_iff_toNat_le, UInt32.le_iff_toNat_le]
  exact Iff.rfl

end Support

theorem toNat_min (a b : UInt32) : (min a b).toNat = min a.toNat b.toNat := by
  simp only [Nat.min_def, ← UInt32.le_iff_toNat_le]
  exact apply_ite UInt32.toNat _ a b

theorem toNat_max (a b : UInt32) : (max a b).toNat = max a.toNat b.toNat := by
  simp only [Nat.max_def, ← UInt32.le_iff_toNat_le]
  exact apply_ite UInt32.toNat _ b a

/-- What two nodes both speak is an interval again. -/
theorem versions_inter (s t : ProtocolSupport) :
    s.versions ∩ t.versions = Set.Icc (max s.min t.min).toNat (min s.current t.current).toNat := by
  rw [ProtocolSupport.versions, ProtocolSupport.versions, Set.Icc_inter_Icc, toNat_min, toNat_max]

section Negotiation
variable {a b : Hello}

theorem negotiate_of_valid (valid : a.support.validate = .ok ()) (valid' : b.support.validate = .ok ()) :
    negotiate a b =
      if min a.support.current b.support.current < max a.support.min b.support.min then
        .error (.incompatible (a.support.current, a.support.min) (b.support.current, b.support.min)
          b.lastVerifiedRoot)
      else .ok ⟨min a.support.current b.support.current⟩ := by
  rw [negotiate, valid, valid']
  rfl

/-- The negotiated version is the greatest one that both nodes speak. -/
theorem negotiate_ok_iff (a b : Hello) (n : Negotiated) :
    negotiate a b = .ok n ↔ IsGreatest (a.support.versions ∩ b.support.versions) n.version.toNat := by
  cases valid : a.support.validate with
  | error e =>
      rw [negotiate, valid, validate_error valid, Set.empty_inter]
      exact iff_of_false (fun h => by cases h) fun greatest => greatest.1
  | ok =>
      cases valid' : b.support.validate with
      | error e =>
          rw [negotiate, valid, valid', validate_error valid', Set.inter_empty]
          exact iff_of_false (fun h => by cases h) fun greatest => greatest.1
      | ok =>
          rw [negotiate_of_valid valid valid', versions_inter]
          split_ifs with apart
          · rw [UInt32.lt_iff_toNat_lt] at apart
            rw [Set.Icc_eq_empty_of_lt apart]
            exact iff_of_false (fun h => by cases h) fun greatest => greatest.1
          · rw [UInt32.lt_iff_toNat_lt] at apart
            have top := isGreatest_Icc (Nat.le_of_not_lt apart)
            constructor
            · intro same
              cases same
              exact top
            · intro greatest
              obtain ⟨version⟩ := n
              rw [UInt32.toNat_inj.mp (top.unique greatest)]

theorem negotiate_isOk_iff (valid : a.support.validate = .ok ()) (valid' : b.support.validate = .ok ()) :
    (∃ n, negotiate a b = .ok n) ↔ (a.support.versions ∩ b.support.versions).Nonempty := by
  rw [negotiate_of_valid valid valid', versions_inter, Set.nonempty_Icc, ← UInt32.le_iff_toNat_le]
  split_ifs with apart
  · refine iff_of_false ?_ (UInt32.not_le.mpr apart)
    rintro ⟨n, h⟩
    cases h
  · exact iff_of_true ⟨_, rfl⟩ (UInt32.not_lt.mp apart)

theorem negotiate_error {e : UpgradeError} (valid : a.support.validate = .ok ())
    (valid' : b.support.validate = .ok ()) (h : negotiate a b = .error e) :
    e = .incompatible (a.support.current, a.support.min) (b.support.current, b.support.min)
      b.lastVerifiedRoot := by
  rw [negotiate_of_valid valid valid'] at h
  split_ifs at h
  cases h
  rfl

theorem negotiate_comm (a b : Hello) (n : Negotiated) : negotiate b a = .ok n ↔ negotiate a b = .ok n := by
  rw [negotiate_ok_iff, negotiate_ok_iff, Set.inter_comm]

end Negotiation

section Envelopes
variable {env : VersionedEnvelope} {s : ProtocolSupport}

theorem decodeChecked_ok_iff (payload : Bytes) :
    env.decodeChecked s = .ok payload ↔ env.version.toNat ∈ s.versions ∧ env.payload = payload := by
  rw [VersionedEnvelope.decodeChecked]
  cases valid : s.validate with
  | error e =>
      rw [validate_error valid]
      exact iff_of_false (fun h => by cases h) fun h => h.1
  | ok =>
      rw [mem_versions_iff]
      change (if _ then _ else _) = _ ↔ _
      split_ifs with new old
      · exact iff_of_false (fun h => by cases h) fun h => UInt32.not_lt.mpr h.1.2 new
      · exact iff_of_false (fun h => by cases h) fun h => UInt32.not_lt.mpr h.1.1 old
      · rw [Except.ok.injEq, and_iff_right ⟨UInt32.not_lt.mp old, UInt32.not_lt.mp new⟩]

theorem decodeChecked_error (foreign : env.version.toNat ∉ s.versions) : ∃ e, env.decodeChecked s = .error e := by
  cases opened : env.decodeChecked s with
  | error e => exact ⟨e, rfl⟩
  | ok payload => exact absurd ((decodeChecked_ok_iff payload).mp opened).1 foreign

/-- Both sides open what is sent at the version they settled on. -/
theorem decodeChecked_agreed {a b : Hello} {n : Negotiated} (agreed : negotiate a b = .ok n) (payload : Bytes) :
    ∀ s ∈ [a.support, b.support], (VersionedEnvelope.encode n.version payload).decodeChecked s = .ok payload := by
  intro s side
  have greatest := (negotiate_ok_iff a b n).mp agreed
  rw [decodeChecked_ok_iff]
  refine ⟨?_, rfl⟩
  obtain rfl | rfl := List.mem_pair.mp side
  · exact greatest.1.1
  · exact greatest.1.2

theorem fromWire_toWire {json : ByteCodec VersionedEnvelope} (trip : json.RoundTrips) (env : VersionedEnvelope) :
    VersionedEnvelope.fromWire json (env.toWire json) = .ok env := by
  rw [VersionedEnvelope.fromWire, VersionedEnvelope.toWire, trip env]

theorem wire_agreed {json : ByteCodec VersionedEnvelope} (trip : json.RoundTrips) {a b : Hello} {n : Negotiated}
    (agreed : negotiate a b = .ok n) (payload : Bytes) : ∀ s ∈ [a.support, b.support],
      ((VersionedEnvelope.fromWire json ((VersionedEnvelope.encode n.version payload).toWire json)).bind
        fun env => env.decodeChecked s) = .ok payload := by
  intro s side
  rw [fromWire_toWire trip]
  exact decodeChecked_agreed agreed payload s side

end Envelopes

/-- Two valid nodes settle, in either order, on the greatest version that both of them speak, if there is one. Both
open what is sent at this version, and neither opens what it does not speak. Otherwise each is refused with the
root of the other one. -/
theorem negotiation_agrees {a b : Hello} (valid : a.support.validate = .ok ())
    (valid' : b.support.validate = .ok ()) :
    ((∃ n, negotiate a b = .ok n) ↔ (a.support.versions ∩ b.support.versions).Nonempty) ∧
    (∀ n, negotiate a b = .ok n →
      IsGreatest (a.support.versions ∩ b.support.versions) n.version.toNat ∧ negotiate b a = .ok n ∧
      ∀ payload, ∀ s ∈ [a.support, b.support],
        (VersionedEnvelope.encode n.version payload).decodeChecked s = .ok payload) ∧
    (∀ env : VersionedEnvelope, ∀ s ∈ [a.support, b.support], env.version.toNat ∉ s.versions →
      ∃ e, env.decodeChecked s = .error e) ∧
    ∀ e, negotiate a b = .error e →
      e = .incompatible (a.support.current, a.support.min) (b.support.current, b.support.min) b.lastVerifiedRoot ∧
      negotiate b a = .error (.incompatible (b.support.current, b.support.min) (a.support.current, a.support.min)
        a.lastVerifiedRoot) := by
  refine ⟨negotiate_isOk_iff valid valid', fun n agreed => ?_, fun env s _ => decodeChecked_error,
    fun e refused => ?_⟩
  · have greatest := (negotiate_ok_iff a b n).mp agreed
    exact ⟨greatest, (negotiate_comm a b n).mpr agreed, decodeChecked_agreed agreed⟩
  · refine ⟨negotiate_error valid valid' refused, ?_⟩
    cases swapped : negotiate b a with
    | ok n =>
        have agreed := (negotiate_comm a b n).mp swapped
        cases agreed.symm.trans refused
    | error e' => rw [negotiate_error valid' valid swapped]

/-- A node of version 2 that still speaks version 1, and one of version 1. -/
theorem negotiation_agrees_on_one :
    IsGreatest ((⟨2, 1⟩ : ProtocolSupport).versions ∩ (⟨1, 1⟩ : ProtocolSupport).versions) 1 :=
  ((@negotiation_agrees ⟨⟨2, 1⟩, "r"⟩ ⟨⟨1, 1⟩, "s"⟩ (by decide) (by decide)).2.1 ⟨1⟩ (by decide)).1

end KaiOs.Network
