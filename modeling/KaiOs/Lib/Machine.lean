import Mathlib.Algebra.Group.Nat.Defs
import Mathlib.Order.Defs.LinearOrder

/-! Arithmetic on 64-bit words as the two builds of a program do it. A checked build panics
when the result does not fit (`none`), a release build wraps around. -/
namespace Machine

inductive Build where
  | checked
  | release
  deriving DecidableEq

namespace Build

def add (build : Build) (a b : UInt64) : Option UInt64 :=
  match build with
  | .checked => if a.toNat + b.toNat < 2 ^ 64 then some (a + b) else none
  | .release => some (a + b)

def sub (build : Build) (a b : UInt64) : Option UInt64 :=
  match build with
  | .checked => if b ≤ a then some (a - b) else none
  | .release => some (a - b)

theorem add_of_fits (build : Build) {a b : UInt64} (fits : a.toNat + b.toNat < 2 ^ 64) :
    build.add a b = some (a + b) := by
  cases build with
  | checked => exact if_pos fits
  | release => rfl

theorem sub_of_le (build : Build) {a b : UInt64} (le : b ≤ a) : build.sub a b = some (a - b) := by
  cases build with
  | checked => exact if_pos le
  | release => rfl

theorem eq_of_add {build : Build} {a b c : UInt64} (h : build.add a b = some c) : c = a + b := by
  cases build with
  | checked =>
      unfold add at h
      split_ifs at h
      cases h
      rfl
  | release =>
      cases h
      rfl

theorem fits_of_checked {a b c : UInt64} (h : checked.add a b = some c) :
    a.toNat + b.toNat < 2 ^ 64 := by
  unfold add at h
  split_ifs at h with fits
  exact fits

end Build

theorem toNat_add_of_fits {a b : UInt64} (fits : a.toNat + b.toNat < 2 ^ 64) :
    (a + b).toNat = a.toNat + b.toNat := by
  rw [UInt64.toNat_add]
  exact Nat.mod_eq_of_lt fits

end Machine
