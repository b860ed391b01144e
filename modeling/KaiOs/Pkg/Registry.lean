import KaiOs.Lib.Shelves
import KaiOs.Lib.Utf8
import KaiOs.Pkg.Version
import KaiOs.State.Merkle
import Mathlib.Data.List.Perm.Subperm

/-! `pkg/src/registry.rs`: publishing and the depth-first resolution. -/
namespace KaiOs.Pkg
open Utf8

inductive PkgError where
  | duplicateNameVersion (name : String) (version : Version)
  | missingDependency (name : String) (req : VersionReq)
  | cycleDetected (name : String)
  | registryPoisoned (name : String)
  deriving DecidableEq

structure PkgEntry where
  manifest : PackageManifest
  integrity : String
  deriving DecidableEq

structure ResolvedPkg where
  name : String
  version : Version
  integrity : String
  deriving DecidableEq

structure ResolutionPlan where
  packages : List ResolvedPkg
  deriving DecidableEq

structure PkgRegistry where
  packages : BTreeMap String (BTreeMap Version PkgEntry)

abbrev Resolved := BTreeMap String ResolvedPkg

namespace PkgRegistry

def new : PkgRegistry := ⟨∅⟩

/-- `shaHex` is the hash of the crate; the slot of the name is opened in any case. -/
def publish (shaHex : Bytes → String) (r : PkgRegistry) (manifest : PackageManifest) (content : Bytes) :
    Except PkgError Unit × PkgRegistry :=
  let integrity := shaHex content
  let slot := r.packages[manifest.name]?.getD ∅
  match slot[manifest.version]? with
  | some existing =>
      if existing.integrity ≠ integrity then
        (.error (.duplicateNameVersion manifest.name manifest.version),
          ⟨r.packages.insert manifest.name slot⟩)
      else (.ok (), ⟨r.packages.insert manifest.name slot⟩)
  | none =>
      (.ok (), ⟨r.packages.insert manifest.name (slot.insert manifest.version ⟨manifest, integrity⟩)⟩)

def bestMatch (r : PkgRegistry) (name : String) (req : VersionReq) : Option Version :=
  r.packages[name]?.bind fun slot => slot.keys.reverse.find? fun v => req.matches v

def highest (r : PkgRegistry) (name : String) : Option Version :=
  r.packages[name]?.bind fun slot => slot.keys.getLast?

def entryAt (r : PkgRegistry) (name : String) (version : Version) : Option PkgEntry :=
  r.packages[name]?.bind fun slot => slot[version]?

def integrityOf (r : PkgRegistry) (name : String) (version : Version) : Option String :=
  (r.entryAt name version).map (·.integrity)

/-- The loop over the dependencies of one manifest. -/
def resolveDeps (r : PkgRegistry)
    (inner : String → Version → Resolved → Option (Except PkgError Resolved)) :
    List Dependency → Resolved → Option (Except PkgError Resolved)
  | [], resolved => some (.ok resolved)
  | dep :: deps, resolved => match r.bestMatch dep.name dep.req with
    | none => some (.error (.missingDependency dep.name dep.req))
    | some version => match inner dep.name version resolved with
      | none => none
      | some (.error e) => some (.error e)
      | some (.ok resolved') => resolveDeps r inner deps resolved'

/-- `resolve_inner`; the first argument bounds the depth of the recursion. -/
def resolveInner (r : PkgRegistry) :
    ℕ → String → Version → List String → Resolved → Option (Except PkgError Resolved)
  | 0, _, _, _, _ => none
  | fuel + 1, name, version, path, resolved =>
      if path.contains name then some (.error (.cycleDetected name))
      else if resolved.contains name then some (.ok resolved)
      else match r.entryAt name version with
        | none => some (.error (.registryPoisoned name))
        | some entry =>
          match resolveDeps r (fun dep v => resolveInner r fuel dep v (path ++ [name]))
              entry.manifest.deps resolved with
          | none => none
          | some (.error e) => some (.error e)
          | some (.ok resolved') =>
              some (.ok (resolved'.insert name ⟨name, version, entry.integrity⟩))

/-- No path has more names than the registry. -/
def resolve (r : PkgRegistry) (root : String) : Option (Except PkgError ResolutionPlan) :=
  match r.highest root with
  | none => some (.error (.registryPoisoned root))
  | some version =>
      (r.resolveInner (r.packages.size + 1) root version [] ∅).map fun result =>
        result.map fun resolved => ⟨resolved.toList.map Prod.snd⟩

section
variable {r : PkgRegistry}

theorem entryAt_isSome_of_mem {name : String} {slot : BTreeMap Version PkgEntry} {v : Version}
    (found : r.packages[name]? = some slot) (member : v ∈ slot.keys) : (r.entryAt name v).isSome := by
  rw [entryAt, found, Option.bind_some, ← Std.ExtTreeMap.mem_iff_isSome_getElem?]
  exact Std.ExtTreeMap.mem_keys.mp member

theorem mem_of_entryAt {name : String} {slot : BTreeMap Version PkgEntry} {v : Version}
    (found : r.packages[name]? = some slot) (h : (r.entryAt name v).isSome) : v ∈ slot.keys := by
  rw [entryAt, found, Option.bind_some, ← Std.ExtTreeMap.mem_iff_isSome_getElem?] at h
  exact Std.ExtTreeMap.mem_keys.mpr h

theorem descending (slot : BTreeMap Version PkgEntry) :
    slot.keys.reverse.Pairwise fun v w => compare w v = .lt :=
  List.pairwise_reverse.mpr Std.ExtTreeMap.ordered_keys

/-- The pinned version is published, meets the requirement, and is the highest that does. -/
theorem bestMatch_spec {name : String} {req : VersionReq} {v : Version} (h : r.bestMatch name req = some v) :
    (r.entryAt name v).isSome ∧ req.matches v = true ∧
      ∀ w, (r.entryAt name w).isSome → req.matches w = true → w ≤ v := by
  obtain ⟨slot, found, first⟩ := Option.bind_eq_some_iff.mp h
  refine ⟨entryAt_isSome_of_mem found ?_, List.find?_some first, fun w published hit => ?_⟩
  · exact List.mem_reverse.mp (List.mem_of_find?_eq_some first)
  · have member := List.mem_reverse.mpr (mem_of_entryAt found published)
    exact Shelves.isLE_of_find? (fun v => v) (descending slot) first member hit

theorem highest_spec {name : String} {v : Version} (h : r.highest name = some v) :
    (r.entryAt name v).isSome ∧ ∀ w, (r.entryAt name w).isSome → w ≤ v := by
  obtain ⟨slot, found, last⟩ := Option.bind_eq_some_iff.mp h
  have first : slot.keys.reverse.find? (fun _ => true) = some v := by
    rw [← List.head?_reverse] at last
    cases keys : slot.keys.reverse with
    | nil =>
        rw [keys] at last
        cases last
    | cons w ws =>
        rw [keys] at last
        exact last
  refine ⟨entryAt_isSome_of_mem found ?_, fun w published => ?_⟩
  · exact List.mem_reverse.mp (List.mem_of_find?_eq_some first)
  · have member := List.mem_reverse.mpr (mem_of_entryAt found published)
    exact Shelves.isLE_of_find? (fun v => v) (descending slot) first member rfl

theorem mem_packages_of_bestMatch {name : String} {req : VersionReq} {v : Version}
    (h : r.bestMatch name req = some v) : name ∈ r.packages := by
  obtain ⟨slot, found, -⟩ := Option.bind_eq_some_iff.mp h
  exact Std.ExtTreeMap.mem_iff_isSome_getElem?.mpr (by rw [found]; rfl)

theorem mem_packages_of_highest {name : String} {v : Version} (h : r.highest name = some v) :
    name ∈ r.packages := by
  obtain ⟨slot, found, -⟩ := Option.bind_eq_some_iff.mp h
  exact Std.ExtTreeMap.mem_iff_isSome_getElem?.mpr (by rw [found]; rfl)

theorem resolveDeps_isSome {inner : String → Version → Resolved → Option (Except PkgError Resolved)}
    (ends : ∀ name ∈ r.packages, ∀ v resolved, (inner name v resolved).isSome) (deps : List Dependency)
    (resolved : Resolved) : (resolveDeps r inner deps resolved).isSome := by
  induction deps generalizing resolved with
  | nil => rfl
  | cons dep deps ih =>
      simp only [resolveDeps]
      split
      · rfl
      · rename_i v pinned
        obtain ⟨result, done⟩ := Option.isSome_iff_exists.mp
          (ends dep.name (mem_packages_of_bestMatch pinned) v resolved)
        rw [done]
        cases result with
        | error e => rfl
        | ok resolved' => exact ih resolved'

theorem length_le_size {path : List String} (distinct : path.Nodup) (inside : ∀ n ∈ path, n ∈ r.packages) :
    path.length ≤ r.packages.size := by
  rw [← Std.ExtTreeMap.length_keys]
  exact (distinct.subperm fun n member => Std.ExtTreeMap.mem_keys.mpr (inside n member)).length_le

/-- The names on the path are distinct and published, so the depth is bounded. -/
theorem resolveInner_isSome {fuel : ℕ} {name : String} {path : List String} (distinct : path.Nodup)
    (inside : ∀ n ∈ path, n ∈ r.packages) (published : name ∈ r.packages)
    (enough : r.packages.size < fuel + path.length) (v : Version) (resolved : Resolved) :
    (resolveInner r fuel name v path resolved).isSome := by
  induction fuel generalizing name v path resolved with
  | zero =>
      have short := length_le_size distinct inside
      omega
  | succ fuel ih =>
      rw [resolveInner]
      split_ifs with cycle reused
      · rfl
      · rfl
      · have fresh : name ∉ path := fun member => cycle (List.contains_iff_mem.mpr member)
        have longer : (path ++ [name]).Nodup :=
          List.nodup_append_comm.mp (List.nodup_cons.mpr ⟨fresh, distinct⟩)
        have inside' : ∀ n ∈ path ++ [name], n ∈ r.packages := by
          intro n member
          obtain old | last := List.mem_append.mp member
          · exact inside n old
          · exact List.mem_singleton.mp last ▸ published
        have more : r.packages.size < fuel + (path ++ [name]).length := by
          rw [List.length_append, List.length_singleton]
          omega
        split
        · rfl
        · rename_i entry found
          obtain ⟨result, done⟩ := Option.isSome_iff_exists.mp
            (resolveDeps_isSome (fun n known w before => ih longer inside' known more w before)
              entry.manifest.deps resolved)
          rw [done]
          cases result <;> rfl

theorem resolve_isSome (root : String) : (r.resolve root).isSome := by
  rw [resolve]
  split
  · rfl
  · rename_i v top
    rw [Option.isSome_map]
    exact resolveInner_isSome List.nodup_nil nofun (mem_packages_of_highest top) (Nat.lt_succ_self _) v ∅

end

end PkgRegistry
end KaiOs.Pkg
