import KaiOs.Lib.Layers
import KaiOs.Pkg.Publishing

/-! Successful resolutions. The packages are listed in the order in which the search anchors
them, newest first; the source keeps them in a map by name. -/
namespace KaiOs.Pkg
open PkgRegistry Layers

/-- The dependencies of the manifest published for a resolved package. -/
def pinnedDeps (r : PkgRegistry) (p : ResolvedPkg) : List Dependency :=
  ((r.entryAt p.name p.version).map (·.manifest.deps)).getD []

def depNames (r : PkgRegistry) (p : ResolvedPkg) : List String := (pinnedDeps r p).map (·.name)

/-- The map holds the packages of the list, each after its dependencies. -/
structure Reached (r : PkgRegistry) (resolved : Resolved) (order : List ResolvedPkg) : Prop where
  lists : ∀ n p, resolved[n]? = some p ↔ p ∈ order ∧ p.name = n
  layered : Layered ResolvedPkg.name (depNames r) order
  sound : ∀ p ∈ order, ∃ e, r.entryAt p.name p.version = some e ∧ p.integrity = e.integrity

/-- A listed package has a requirement that pins `q`. -/
def Required (r : PkgRegistry) (order : List ResolvedPkg) (q : ResolvedPkg) : Prop :=
  ∃ p ∈ order, ∃ dep ∈ pinnedDeps r p, dep.name = q.name ∧ r.bestMatch dep.name dep.req = some q.version

/-- What a part of the search adds: packages that are off its path and that a listed package
or the caller wants. -/
structure Grown (r : PkgRegistry) (wanted : ResolvedPkg → Prop) (path : List String)
    (order : List ResolvedPkg) (resolved' : Resolved) (new : List ResolvedPkg) : Prop where
  reached : Reached r resolved' (new ++ order)
  required : ∀ q ∈ new, Required r (new ++ order) q ∨ wanted q
  offPath : ∀ q ∈ new, q.name ∉ path

section
variable {r : PkgRegistry}

theorem pinnedDeps_of_entry {p : ResolvedPkg} {e : PkgEntry} (found : r.entryAt p.name p.version = some e) :
    pinnedDeps r p = e.manifest.deps := by
  rw [pinnedDeps, found, Option.map_some, Option.getD_some]

theorem reached_empty : Reached r ∅ [] := by
  refine ⟨fun n p => ?_, .nil, nofun⟩
  rw [Std.ExtTreeMap.getElem?_empty]
  exact iff_of_false nofun fun h => nomatch h.1

theorem Required.mono {order order' : List ResolvedPkg} (sub : order ⊆ order') {q : ResolvedPkg}
    (h : Required r order q) : Required r order' q := by
  obtain ⟨p, member, pin⟩ := h
  exact ⟨p, sub member, pin⟩

theorem resolveDeps_cons {inner : String → Version → Resolved → Option (Except PkgError Resolved)}
    {dep : Dependency} {deps : List Dependency} {resolved resolved' : Resolved}
    (h : resolveDeps r inner (dep :: deps) resolved = some (.ok resolved')) :
    ∃ v mid, r.bestMatch dep.name dep.req = some v ∧ inner dep.name v resolved = some (.ok mid) ∧
      resolveDeps r inner deps mid = some (.ok resolved') := by
  simp only [resolveDeps] at h
  split at h
  · cases h
  · rename_i v pinned
    split at h
    · cases h
    · cases h
    · rename_i mid done
      exact ⟨v, mid, pinned, done, h⟩

/-- The name is off the path, and is either known already or anchored after its dependencies. -/
theorem resolveInner_ok {fuel : ℕ} {name : String} {v : Version} {path : List String}
    {resolved resolved' : Resolved}
    (h : resolveInner r (fuel + 1) name v path resolved = some (.ok resolved')) :
    name ∉ path ∧ (name ∈ resolved ∧ resolved' = resolved ∨ name ∉ resolved ∧ ∃ entry mid,
      r.entryAt name v = some entry ∧
        resolveDeps r (fun dep w => resolveInner r fuel dep w (path ++ [name])) entry.manifest.deps resolved =
          some (.ok mid) ∧ resolved' = mid.insert name ⟨name, v, entry.integrity⟩) := by
  rw [resolveInner] at h
  split_ifs at h with cycle reused
  · cases h
  · refine ⟨fun member => cycle (List.contains_iff_mem.mpr member), .inl ⟨reused, ?_⟩⟩
    cases h
    rfl
  · refine ⟨fun member => cycle (List.contains_iff_mem.mpr member), .inr ⟨reused, ?_⟩⟩
    split at h
    · cases h
    · rename_i entry found
      split at h
      · cases h
      · cases h
      · rename_i mid done
        cases h
        exact ⟨entry, mid, found, done, rfl⟩

theorem resolveDeps_grown {inner : String → Version → Resolved → Option (Except PkgError Resolved)}
    {path : List String}
    (step : ∀ name v before order last, Reached r before order → inner name v before = some (.ok last) →
      ∃ new, Grown r (fun q => q.name = name ∧ q.version = v) path order last new ∧
        ∃ p ∈ new ++ order, p.name = name)
    {deps : List Dependency} {resolved resolved' : Resolved} {order : List ResolvedPkg}
    (reached : Reached r resolved order) (h : resolveDeps r inner deps resolved = some (.ok resolved')) :
    ∃ new, Grown r (fun q => ∃ dep ∈ deps, dep.name = q.name ∧
        r.bestMatch dep.name dep.req = some q.version) path order resolved' new ∧
      ∀ dep ∈ deps, ∃ p ∈ new ++ order, p.name = dep.name := by
  induction deps generalizing resolved order with
  | nil =>
      cases h
      exact ⟨[], ⟨reached, nofun, nofun⟩, nofun⟩
  | cons dep deps ih =>
      obtain ⟨v, mid, pinned, done, rest⟩ := resolveDeps_cons h
      obtain ⟨first, grown, p, listed, named⟩ := step dep.name v resolved order mid reached done
      obtain ⟨later, more, met⟩ := ih grown.reached rest
      have grouped : (later ++ first) ++ order = later ++ (first ++ order) := List.append_assoc _ _ _
      refine ⟨later ++ first, ⟨grouped ▸ more.reached, fun q member => ?_, fun q member => ?_⟩, ?_⟩
      · rw [grouped]
        obtain late | early := List.mem_append.mp member
        · obtain required | ⟨d, inside, pin⟩ := more.required q late
          · exact .inl required
          · exact .inr ⟨d, List.mem_cons_of_mem _ inside, pin⟩
        · obtain required | ⟨same, version⟩ := grown.required q early
          · exact .inl (required.mono (List.subset_append_right _ _))
          · exact .inr ⟨dep, List.mem_cons_self, same.symm, version ▸ pinned⟩
      · obtain late | early := List.mem_append.mp member
        · exact more.offPath q late
        · exact grown.offPath q early
      · rw [grouped]
        intro d member
        obtain rfl | inside := List.mem_cons.mp member
        · exact ⟨p, List.mem_append_right _ listed, named⟩
        · exact met d inside

theorem Reached.mem_iff {resolved : Resolved} {order : List ResolvedPkg} (h : Reached r resolved order)
    (name : String) : name ∈ resolved ↔ ∃ p ∈ order, p.name = name := by
  rw [Std.ExtTreeMap.mem_iff_isSome_getElem?, Option.isSome_iff_exists]
  exact exists_congr fun p => h.lists name p

theorem Reached.anchor {resolved : Resolved} {order : List ResolvedPkg} (h : Reached r resolved order)
    {name : String} {v : Version} {entry : PkgEntry} (found : r.entryAt name v = some entry)
    (fresh : ∀ q ∈ order, q.name ≠ name) (met : ∀ dep ∈ entry.manifest.deps, ∃ p ∈ order, p.name = dep.name) :
    Reached r (resolved.insert name ⟨name, v, entry.integrity⟩) (⟨name, v, entry.integrity⟩ :: order) := by
  refine ⟨fun n p => ?_, .cons fresh (fun k member => ?_) h.layered, fun p member => ?_⟩
  · rw [lookup_insert]
    split_ifs with same
    · subst same
      constructor
      · rintro ⟨⟩
        exact ⟨List.mem_cons_self, rfl⟩
      · rintro ⟨member, named⟩
        obtain rfl | old := List.mem_cons.mp member
        · rfl
        · exact absurd named (fresh p old)
    · rw [h.lists]
      constructor
      · exact fun ⟨member, named⟩ => ⟨List.mem_cons_of_mem _ member, named⟩
      · rintro ⟨member, rfl⟩
        obtain rfl | old := List.mem_cons.mp member
        · exact absurd rfl same
        · exact ⟨old, rfl⟩
  · obtain ⟨dep, inside, rfl⟩ := List.mem_map.mp member
    have deps : pinnedDeps r ⟨name, v, entry.integrity⟩ = entry.manifest.deps := pinnedDeps_of_entry found
    exact met dep (deps ▸ inside)
  · obtain rfl | old := List.mem_cons.mp member
    · exact ⟨entry, found, rfl⟩
    · exact h.sound p old

/-- Nothing below a package has its name: the name was on the path of the search. -/
theorem Grown.fresh {wanted : ResolvedPkg → Prop} {path : List String} {name : String}
    {resolved mid : Resolved} {order new : List ResolvedPkg} (reached : Reached r resolved order)
    (unknown : name ∉ resolved) (grown : Grown r wanted (path ++ [name]) order mid new) :
    ∀ q ∈ new ++ order, q.name ≠ name := by
  intro q member named
  obtain young | old := List.mem_append.mp member
  · exact grown.offPath q young (List.mem_append_right _ (named ▸ List.mem_cons_self))
  · exact unknown ((reached.mem_iff name).mpr ⟨q, old, named⟩)

theorem resolveInner_grown {fuel : ℕ} {name : String} {v : Version} {path : List String}
    {resolved resolved' : Resolved} {order : List ResolvedPkg} (reached : Reached r resolved order)
    (h : resolveInner r fuel name v path resolved = some (.ok resolved')) :
    ∃ new, Grown r (fun q => q.name = name ∧ q.version = v) path order resolved' new ∧
      (name ∉ resolved → ∃ p ∈ new, p.name = name ∧ p.version = v) ∧ ∃ p ∈ new ++ order, p.name = name := by
  induction fuel generalizing name v path resolved resolved' order with
  | zero => cases h
  | succ fuel ih =>
      obtain ⟨off, ⟨known, rfl⟩ | ⟨unknown, entry, mid, found, done, rfl⟩⟩ := resolveInner_ok h
      · exact ⟨[], ⟨reached, nofun, nofun⟩, fun fresh => absurd known fresh, (reached.mem_iff name).mp known⟩
      · have inner (n : String) (w : Version) (before : Resolved) (o : List ResolvedPkg) (last : Resolved)
            (reach : Reached r before o)
            (called : resolveInner r fuel n w (path ++ [name]) before = some (.ok last)) :
            ∃ new, Grown r (fun q => q.name = n ∧ q.version = w) (path ++ [name]) o last new ∧
              ∃ p ∈ new ++ o, p.name = n := by
          obtain ⟨new, grown, -, listed⟩ := ih reach called
          exact ⟨new, grown, listed⟩
        obtain ⟨new, grown, met⟩ := resolveDeps_grown inner reached done
        have anchored := grown.reached.anchor found (grown.fresh reached unknown) met
        have deps : pinnedDeps r ⟨name, v, entry.integrity⟩ = entry.manifest.deps := pinnedDeps_of_entry found
        refine ⟨⟨name, v, entry.integrity⟩ :: new, ⟨anchored, fun q member => ?_, fun q member => ?_⟩,
          fun _ => ⟨_, List.mem_cons_self, rfl, rfl⟩, _, List.mem_cons_self, rfl⟩
        · obtain rfl | inside := List.mem_cons.mp member
          · exact .inr ⟨rfl, rfl⟩
          · refine .inl ?_
            obtain required | ⟨dep, listed, pin⟩ := grown.required q inside
            · exact required.mono (List.subset_cons_self _ _)
            · exact ⟨_, List.mem_cons_self, dep, deps ▸ listed, pin⟩
        · obtain rfl | inside := List.mem_cons.mp member
          · exact off
          · exact fun onPath => grown.offPath q inside (List.mem_append_left _ onPath)

end

/-- A successful resolution, with the packages in the order of the search. -/
theorem resolve_reached {r : PkgRegistry} {root : String} {plan : ResolutionPlan}
    (h : r.resolve root = some (.ok plan)) :
    ∃ v resolved order, r.highest root = some v ∧
      r.resolveInner (r.packages.size + 1) root v [] ∅ = some (.ok resolved) ∧
      plan.packages = resolved.toList.map Prod.snd ∧ Reached r resolved order ∧
      (∃ p ∈ order, p.name = root ∧ p.version = v) ∧
      ∀ q ∈ order, Required r order q ∨ q.name = root ∧ q.version = v := by
  rw [resolve] at h
  split at h
  · cases h
  · rename_i v top
    obtain ⟨result, done, h⟩ := Option.map_eq_some_iff.mp h
    cases result with
    | error e => cases h
    | ok resolved =>
        cases h
        obtain ⟨order, grown, atRoot, -⟩ := resolveInner_grown reached_empty done
        have reached := grown.reached
        have required := grown.required
        rw [List.append_nil] at reached required
        exact ⟨v, resolved, order, top, done, rfl, reached, atRoot Std.ExtTreeMap.not_mem_empty, required⟩

theorem Reached.mem_values {r : PkgRegistry} {resolved : Resolved} {order : List ResolvedPkg}
    (h : Reached r resolved order) {p : ResolvedPkg} : p ∈ resolved.toList.map Prod.snd ↔ p ∈ order := by
  rw [List.mem_map]
  constructor
  · rintro ⟨⟨n, _⟩, member, rfl⟩
    exact ((h.lists n _).mp (Std.ExtTreeMap.mem_toList_iff_getElem?_eq_some.mp member)).1
  · intro member
    have found := (h.lists p.name p).mpr ⟨member, rfl⟩
    exact ⟨(p.name, p), Std.ExtTreeMap.mem_toList_iff_getElem?_eq_some.mpr found, rfl⟩

/-- Each package is stored under its own name. -/
theorem Reached.names {r : PkgRegistry} {resolved : Resolved} {order : List ResolvedPkg}
    (h : Reached r resolved order) : (resolved.toList.map Prod.snd).map (·.name) = resolved.keys := by
  rw [← Std.ExtTreeMap.map_fst_toList_eq_keys, List.map_map]
  refine List.map_congr_left fun (n, p) member => ?_
  exact ((h.lists n p).mp (Std.ExtTreeMap.mem_toList_iff_getElem?_eq_some.mp member)).2

/-- The manifest pinned for `p` names `q`, both in the plan. -/
def DependsOn (r : PkgRegistry) (plan : ResolutionPlan) (p q : ResolvedPkg) : Prop :=
  p ∈ plan.packages ∧ q ∈ plan.packages ∧ ∃ e, r.entryAt p.name p.version = some e ∧
    ∃ dep ∈ e.manifest.deps, dep.name = q.name

structure WellStructured (r : PkgRegistry) (root : String) (plan : ResolutionPlan) : Prop where
  sorted : (plan.packages.map (·.name)).Pairwise (· < ·)
  root_highest : ∃ p ∈ plan.packages, p.name = root ∧ (r.entryAt root p.version).isSome ∧
    ∀ v, (r.entryAt root v).isSome → v ≤ p.version
  published : ∀ p ∈ plan.packages, r.integrityOf p.name p.version = some p.integrity
  closed : ∀ p ∈ plan.packages, ∀ e, r.entryAt p.name p.version = some e →
    ∀ dep ∈ e.manifest.deps, ∃ q ∈ plan.packages, q.name = dep.name
  required : ∀ q ∈ plan.packages, q.name ≠ root → ∃ p ∈ plan.packages, DependsOn r plan p q ∧
    ∃ e, r.entryAt p.name p.version = some e ∧ ∃ dep ∈ e.manifest.deps, dep.name = q.name ∧
      (r.entryAt q.name q.version).isSome ∧ dep.req.matches q.version = true ∧
      ∀ w, (r.entryAt q.name w).isSome → dep.req.matches w = true → w ≤ q.version
  acyclic : ∀ p, ¬ Relation.TransGen (DependsOn r plan) p p

theorem plan_well_structured (r : PkgRegistry) (root : String) (plan : ResolutionPlan)
    (h : r.resolve root = some (.ok plan)) : WellStructured r root plan := by
  obtain ⟨v, resolved, order, top, -, packages, reached, ⟨p, listed, rfl, rfl⟩, required⟩ := resolve_reached h
  have members (q : ResolvedPkg) : q ∈ plan.packages ↔ q ∈ order := by
    rw [packages]
    exact reached.mem_values
  have deps {q : ResolvedPkg} {e : PkgEntry} (found : r.entryAt q.name q.version = some e) :
      depNames r q = e.manifest.deps.map (·.name) := by
    rw [depNames, pinnedDeps_of_entry found]
  refine ⟨?_, ⟨p, (members p).mpr listed, rfl, highest_spec top⟩, fun q member => ?_,
    fun q member e found dep inside => ?_, fun q member other => ?_, fun q => ?_⟩
  · rw [packages, reached.names]
    have ascending : resolved.keys.Pairwise fun a b => compare a b = .lt := Std.ExtTreeMap.ordered_keys
    exact ascending.imp compareOfLessAndEq_eq_lt.mp
  · obtain ⟨e, found, integrity⟩ := reached.sound q ((members q).mp member)
    rw [integrityOf, found, Option.map_some, integrity]
  · obtain ⟨d, hd, named⟩ := reached.layered.closed ((members q).mp member)
      ((deps found).symm ▸ List.mem_map.mpr ⟨dep, inside, rfl⟩)
    exact ⟨d, (members d).mpr hd, named⟩
  · obtain ⟨d, hd, dep, inside, named, pin⟩ | ⟨same, -⟩ := required q ((members q).mp member)
    · obtain ⟨e, found, -⟩ := reached.sound d hd
      rw [pinnedDeps_of_entry found] at inside
      have best := bestMatch_spec pin
      rw [named] at best
      exact ⟨d, (members d).mpr hd, ⟨(members d).mpr hd, member, e, found, dep, inside, named⟩,
        e, found, dep, inside, named, best⟩
    · exact absurd same other
  · intro cycle
    have edge (a b : ResolvedPkg) (h : DependsOn r plan a b) : Edge ResolvedPkg.name (depNames r) order a b := by
      obtain ⟨ha, hb, e, found, dep, inside, named⟩ := h
      refine ⟨(members a).mp ha, (members b).mp hb, ?_⟩
      rw [deps found]
      exact List.mem_map.mpr ⟨dep, inside, named⟩
    exact reached.layered.acyclic q (Relation.TransGen.mono edge q q cycle)

/-- Published in any order: an application, a library and what both of them use. -/
def shared : List Call :=
  [(⟨"app", ⟨1, 0, 0⟩, [⟨"net", .caret ⟨2, 0, 0⟩⟩, ⟨"base", .caret ⟨1, 0, 0⟩⟩]⟩, [1]),
    (⟨"base", ⟨1, 0, 0⟩, []⟩, [2]), (⟨"net", ⟨2, 1, 0⟩, [⟨"base", .caret ⟨1, 0, 0⟩⟩]⟩, [3]),
    (⟨"base", ⟨1, 4, 0⟩, []⟩, [4])]

theorem shared_well_structured : WellStructured (after latin1 shared) "app"
    ⟨[⟨"app", ⟨1, 0, 0⟩, latin1 [1]⟩, ⟨"base", ⟨1, 4, 0⟩, latin1 [4]⟩, ⟨"net", ⟨2, 1, 0⟩, latin1 [3]⟩]⟩ :=
  plan_well_structured _ _ _ (by decide +kernel)

end KaiOs.Pkg
