import Std.Data.ExtTreeMap
import Mathlib.Data.List.Basic

/-! `pkg/src/version.rs` and `pkg/src/manifest.rs`: versions in lexicographic order,
requirements and manifests. -/
namespace KaiOs.Pkg

structure Version where
  major : UInt64
  minor : UInt64
  patch : UInt64
  deriving DecidableEq, Repr

instance : Ord Version :=
  ⟨compareLex (compareOn (·.major)) (compareLex (compareOn (·.minor)) (compareOn (·.patch)))⟩

instance : Std.TransOrd Version := inferInstanceAs (Std.TransCmp (compareLex _ _))

instance : Std.LawfulEqOrd Version where
  eq_of_compare {v w} h := by
    obtain ⟨major, h⟩ := compareLex_eq_eq.mp h
    obtain ⟨minor, patch⟩ := compareLex_eq_eq.mp h
    cases v
    cases w
    cases Std.LawfulEqOrd.eq_of_compare major
    cases Std.LawfulEqOrd.eq_of_compare minor
    cases Std.LawfulEqOrd.eq_of_compare patch
    rfl

instance : LE Version := ⟨fun v w => (compare v w).isLE⟩

instance (v w : Version) : Decidable (v ≤ w) := inferInstanceAs (Decidable ((compare v w).isLE = true))

inductive VersionReq where
  | exact (version : Version)
  | caret (version : Version)
  deriving DecidableEq, Repr

/-- The triples that the source compares are ordered as the versions are. -/
def VersionReq.matches : VersionReq → Version → Bool
  | .exact e, v => e == v
  | .caret c, v => v.major == c.major && decide (c ≤ v)

structure Dependency where
  name : String
  req : VersionReq
  deriving DecidableEq, Repr

structure PackageManifest where
  name : String
  version : Version
  deps : List Dependency
  deriving DecidableEq, Repr

example : (VersionReq.caret ⟨1, 2, 0⟩).matches ⟨1, 9, 9⟩ = true := by decide

example : (VersionReq.caret ⟨1, 2, 0⟩).matches ⟨2, 0, 0⟩ = false := by decide

end KaiOs.Pkg
