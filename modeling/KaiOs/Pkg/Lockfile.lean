import KaiOs.Pkg.Resolution

/-! `pkg/src/lockfile.rs`: what a lockfile pins, and that it stays valid. -/
namespace KaiOs.Pkg
open Utf8 PkgRegistry

structure LockEntry where
  name : String
  version : Version
  integrity : String
  deriving DecidableEq

structure Lockfile where
  root : String
  entries : List LockEntry
  deriving DecidableEq

namespace Lockfile

/-- `sort_by` is stable, as the merge sort is. -/
def fromPlan (root : String) (plan : ResolutionPlan) : Lockfile :=
  ⟨root, (plan.packages.map fun p => ⟨p.name, p.version, p.integrity⟩).mergeSort
    fun a b => (compare a.name b.name).isLE⟩

def verify (lock : Lockfile) (registry : PkgRegistry) : Bool :=
  lock.entries.all fun e =>
    ((registry.integrityOf e.name e.version).map fun i => i == e.integrity).getD false

theorem verify_iff (lock : Lockfile) (registry : PkgRegistry) : lock.verify registry = true ↔
    ∀ e ∈ lock.entries, registry.integrityOf e.name e.version = some e.integrity := by
  rw [verify, List.all_eq_true]
  refine forall₂_congr fun e _ => ?_
  cases registry.integrityOf e.name e.version with
  | none => exact iff_of_false Bool.false_ne_true nofun
  | some i => rw [Option.map_some, Option.getD_some, beq_iff_eq, Option.some_inj]

theorem mem_fromPlan {root : String} {plan : ResolutionPlan} {e : LockEntry}
    (member : e ∈ (fromPlan root plan).entries) :
    ∃ p ∈ plan.packages, e = ⟨p.name, p.version, p.integrity⟩ := by
  obtain ⟨p, listed, rfl⟩ := List.mem_map.mp (List.mem_mergeSort.mp member)
  exact ⟨p, listed, rfl⟩

end Lockfile

theorem integrityOf_stays {shaHex : Bytes → String} {calls : List Call} {name integrity : String}
    {version : Version} (h : (after shaHex calls).integrityOf name version = some integrity)
    (more : List Call) : (after shaHex (calls ++ more)).integrityOf name version = some integrity := by
  obtain ⟨e, found, rfl⟩ := Option.map_eq_some_iff.mp h
  rw [integrityOf, entryAt_stays shaHex found more, Option.map_some]

/-- A lock of a plan verifies against the registry it was resolved in, however many calls follow. -/
theorem lock_verifies {shaHex : Bytes → String} {calls : List Call} {root : String} {plan : ResolutionPlan}
    (h : (after shaHex calls).resolve root = some (.ok plan)) (more : List Call) :
    (Lockfile.fromPlan root plan).verify (after shaHex (calls ++ more)) = true := by
  rw [Lockfile.verify_iff]
  intro e member
  obtain ⟨p, listed, rfl⟩ := Lockfile.mem_fromPlan member
  obtain ⟨v, resolved, order, -, -, packages, reached, -, -⟩ := resolve_reached h
  rw [packages] at listed
  obtain ⟨entry, found, integrity⟩ := reached.sound p (reached.mem_values.mp listed)
  refine integrityOf_stays ?_ more
  rw [integrityOf, found, Option.map_some, integrity]

theorem published_stays_valid (shaHex : Bytes → String) (calls : List Call) :
    (∀ more name version e, (after shaHex calls).entryAt name version = some e →
      (after shaHex (calls ++ more)).entryAt name version = some e) ∧
    (∀ manifest content err r', (after shaHex calls).publish shaHex manifest content = (.error err, r') →
      r' = after shaHex calls) ∧
    ∀ root plan, (after shaHex calls).resolve root = some (.ok plan) →
      (Lockfile.fromPlan root plan).verify (after shaHex calls) = true ∧
        ∀ more, (Lockfile.fromPlan root plan).verify (after shaHex (calls ++ more)) = true := by
  refine ⟨fun more name version e found => entryAt_stays shaHex found more,
    fun manifest content err r' h => publish_error h, fun root plan h => ⟨?_, lock_verifies h⟩⟩
  have now := lock_verifies h []
  rwa [List.append_nil] at now

/-- A newer version of `base` does not disturb the lock. -/
theorem shared_lock_stays_valid :
    (Lockfile.fromPlan "app" ⟨[⟨"app", ⟨1, 0, 0⟩, latin1 [1]⟩, ⟨"base", ⟨1, 4, 0⟩, latin1 [4]⟩,
      ⟨"net", ⟨2, 1, 0⟩, latin1 [3]⟩]⟩).verify
        (after latin1 (shared ++ [(⟨"base", ⟨1, 9, 0⟩, []⟩, [9])])) = true :=
  ((published_stays_valid latin1 shared).2.2 "app" _ (by decide +kernel)).2 _

end KaiOs.Pkg
