import KaiOs.Lib.Utf8
import Std.Data.ExtTreeMap
import Mathlib.Data.List.Basic

/-! `ai/src/model_registry.rs`: versions of models and the manifests that pin their artefacts. -/
namespace KaiOs.Ai
open Utf8

structure ModelVersion where
  major : UInt32
  minor : UInt32
  patch : UInt32
  deriving DecidableEq

instance : Ord ModelVersion :=
  ⟨compareLex (compareOn (·.major)) (compareLex (compareOn (·.minor)) (compareOn (·.patch)))⟩

instance : Std.TransOrd ModelVersion := inferInstanceAs (Std.TransCmp (compareLex _ _))

instance : Std.LawfulEqOrd ModelVersion where
  eq_of_compare {v w} h := by
    obtain ⟨major, h⟩ := compareLex_eq_eq.mp h
    obtain ⟨minor, patch⟩ := compareLex_eq_eq.mp h
    cases v
    cases w
    cases Std.LawfulEqOrd.eq_of_compare major
    cases Std.LawfulEqOrd.eq_of_compare minor
    cases Std.LawfulEqOrd.eq_of_compare patch
    rfl

instance : LE ModelVersion := ⟨fun v w => (compare v w).isLE⟩

instance (v w : ModelVersion) : Decidable (v ≤ w) := inferInstanceAs (Decidable ((compare v w).isLE = true))

inductive VersionReq where
  | exact (version : ModelVersion)
  | caret (version : ModelVersion)
  deriving DecidableEq

def VersionReq.matches : VersionReq → ModelVersion → Bool
  | .exact e, v => v == e
  | .caret c, v => decide (c ≤ v) && v.major == c.major

structure ModelManifest where
  id : String
  version : ModelVersion
  owner : String
  sizeBytes : UInt64
  sha256 : String
  deriving DecidableEq

/-- What an artefact is stored under. -/
abbrev ModelKey := String × ModelVersion

/-- Tuples are ordered by their first difference. -/
instance : Ord ModelKey := ⟨compareLex (compareOn Prod.fst) (compareOn Prod.snd)⟩

instance : Std.TransOrd ModelKey := inferInstanceAs (Std.TransCmp (compareLex _ _))

instance : Std.LawfulEqOrd ModelKey where
  eq_of_compare {k l} h := by
    obtain ⟨id, version⟩ := compareLex_eq_eq.mp h
    exact Prod.ext (Std.LawfulEqOrd.eq_of_compare id) (Std.LawfulEqOrd.eq_of_compare version)

inductive RegistryError where
  | duplicateIdVersion (id : String) (version : ModelVersion)
  | unknownModel (id : String)
  | noMatchingVersion (id : String) (req : VersionReq)
  deriving DecidableEq

structure ModelRegistry where
  models : Std.ExtTreeMap String (Std.ExtTreeMap ModelVersion ModelManifest compare) compare

namespace ModelRegistry

def new : ModelRegistry := ⟨∅⟩

/-- The slot of the model is opened in any case. -/
def publish (r : ModelRegistry) (m : ModelManifest) : Except RegistryError Unit × ModelRegistry :=
  let entry := r.models[m.id]?.getD ∅
  match entry[m.version]? with
  | some existing =>
      if existing.sha256 = m.sha256 then (.ok (), ⟨r.models.insert m.id entry⟩)
      else (.error (.duplicateIdVersion m.id m.version), ⟨r.models.insert m.id entry⟩)
  | none => (.ok (), ⟨r.models.insert m.id (entry.insert m.version m)⟩)

def bestMatch (r : ModelRegistry) (id : String) (req : VersionReq) : Except RegistryError ModelManifest :=
  match r.models[id]? with
  | none => .error (.unknownModel id)
  | some versions =>
      match (versions.toList.reverse.map Prod.snd).find? fun m => req.matches m.version with
      | none => .error (.noMatchingVersion id req)
      | some m => .ok m

def get (r : ModelRegistry) (id : String) (version : ModelVersion) : Except RegistryError ModelManifest :=
  match r.models[id]?.bind fun v => v[version]? with
  | none => .error (.unknownModel id)
  | some m => .ok m

end ModelRegistry
end KaiOs.Ai
