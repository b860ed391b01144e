import KaiOs.Pkg.Causes
import KaiOs.Pkg.Resolution

/-! When a plan meets every requirement of its packages. A name that is resolved already is
reused without a look at the new requirement: what the search has to avoid for that, and registries
in which it cannot come to it. -/
namespace KaiOs.Pkg
open PkgRegistry

section
variable (r : PkgRegistry)

/-- In the loop over the dependencies: a name that is known has a version that matches. -/
def DepsReuseMatching (inner : String → Version → Resolved → Option (Except PkgError Resolved))
    (innerMatching : String → Version → Resolved → Prop) : List Dependency → Resolved → Prop
  | [], _ => True
  | dep :: deps, resolved =>
      (∀ q, resolved[dep.name]? = some q → dep.req.matches q.version = true) ∧
        ∀ v, r.bestMatch dep.name dep.req = some v → innerMatching dep.name v resolved ∧
          ∀ next, inner dep.name v resolved = some (.ok next) →
            DepsReuseMatching inner innerMatching deps next

/-- The search never takes up a known name for a requirement that its version does not meet. -/
def ReusesMatching : ℕ → String → Version → List String → Resolved → Prop
  | 0, _, _, _, _ => True
  | fuel + 1, name, v, path, resolved => name ∉ path → name ∉ resolved →
      ∀ entry, r.entryAt name v = some entry →
        DepsReuseMatching r (fun dep w => resolveInner r fuel dep w (path ++ [name]))
          (fun dep w => ReusesMatching fuel dep w (path ++ [name])) entry.manifest.deps resolved

/-- The condition on the whole search of a root. -/
def NoStaleReuse (root : String) : Prop :=
  ∀ v, r.highest root = some v → ReusesMatching r (r.packages.size + 1) root v [] ∅

/-- Every requirement of `p` is met in the map. -/
def Met (last : Resolved) (p : ResolvedPkg) : Prop :=
  ∀ dep ∈ pinnedDeps r p, ∃ q, last[dep.name]? = some q ∧ dep.req.matches q.version = true

end

/-- Nothing that is resolved is changed later. -/
def Extends (before last : Resolved) : Prop :=
  ∀ (n : String) (p : ResolvedPkg), before[n]? = some p → last[n]? = some p

/-- What is in `next` and was not in `before`. -/
def Added (before next : Resolved) (p : ResolvedPkg) : Prop :=
  ∃ n : String, before[n]? = none ∧ next[n]? = some p

theorem Extends.trans {a b c : Resolved} (first : Extends a b) (second : Extends b c) : Extends a c :=
  fun n p h => second n p (first n p h)

theorem added_trans {a b c : Resolved} (second : Extends b c) (first : Extends a b) (p : ResolvedPkg) :
    Added a c p ↔ Added a b p ∨ Added b c p := by
  constructor
  · rintro ⟨n, unknown, known⟩
    cases between : b[n]? with
    | none => exact .inr ⟨n, between, known⟩
    | some q =>
        cases (second n q between).symm.trans known
        exact .inl ⟨n, unknown, between⟩
  · rintro (⟨n, unknown, known⟩ | ⟨n, unknown, known⟩)
    · exact ⟨n, unknown, second n p known⟩
    · refine ⟨n, ?_, known⟩
      cases held : a[n]? with
      | none => rfl
      | some q => cases (first n q held).symm.trans unknown

theorem not_added_self {a : Resolved} {p : ResolvedPkg} : ¬ Added a a p := by
  rintro ⟨n, unknown, known⟩
  cases unknown.symm.trans known

theorem insert_fresh {a : Resolved} {name : String} (p : ResolvedPkg) (absent : a[name]? = none) :
    Extends a (a.insert name p) ∧ ∀ q, Added a (a.insert name p) q ↔ q = p := by
  refine ⟨fun n q known => ?_, fun q => ⟨?_, ?_⟩⟩
  · rw [lookup_insert]
    split_ifs with same
    · subst same
      cases absent.symm.trans known
    · exact known
  · rintro ⟨n, unknown, known⟩
    rw [lookup_insert] at known
    split_ifs at known with same
    · exact (Option.some.inj known).symm
    · cases unknown.symm.trans known
  · rintro rfl
    exact ⟨name, absent, Std.ExtTreeMap.getElem?_insert_self⟩

section
variable {r : PkgRegistry}

theorem depsReuseMatching_cons {inner : String → Version → Resolved → Option (Except PkgError Resolved)}
    {innerMatching : String → Version → Resolved → Prop} {dep : Dependency} {v : Version} {before mid : Resolved}
    (pinned : r.bestMatch dep.name dep.req = some v) (done : inner dep.name v before = some (.ok mid))
    (deps : List Dependency) :
    DepsReuseMatching r inner innerMatching (dep :: deps) before ↔
      (∀ q, before[dep.name]? = some q → dep.req.matches q.version = true) ∧
        innerMatching dep.name v before ∧ DepsReuseMatching r inner innerMatching deps mid := by
  refine and_congr_right fun _ => ⟨fun all => ?_, fun both w pin => ?_⟩
  · exact ⟨(all v pinned).1, (all v pinned).2 mid done⟩
  · cases pinned.symm.trans pin
    refine ⟨both.1, fun next again => ?_⟩
    cases done.symm.trans again
    exact both.2

theorem reusesMatching_entry {fuel : ℕ} {name : String} {v : Version} {path : List String} {before : Resolved}
    {entry : PkgEntry} (off : name ∉ path) (unknown : name ∉ before)
    (found : r.entryAt name v = some entry) :
    ReusesMatching r (fuel + 1) name v path before ↔
      DepsReuseMatching r (fun dep w => resolveInner r fuel dep w (path ++ [name]))
        (fun dep w => ReusesMatching r fuel dep w (path ++ [name])) entry.manifest.deps before := by
  constructor
  · exact fun all => all off unknown entry found
  · intro deps _ _ entry' found'
    cases found.symm.trans found'
    exact deps

/-- A requirement is met in the end exactly where a known version matches: what was unknown
is pinned to a version that does. -/
theorem met_iff_of_searched {dep : Dependency} {v : Version} {before mid last : Resolved}
    (pinned : r.bestMatch dep.name dep.req = some v) (kept : Extends before last)
    (fresh : before[dep.name]? = none → ∃ q, mid[dep.name]? = some q ∧ q.version = v)
    (later : Extends mid last) :
    (∀ q, before[dep.name]? = some q → dep.req.matches q.version = true) ↔
      ∃ q, last[dep.name]? = some q ∧ dep.req.matches q.version = true := by
  cases known : before[dep.name]? with
  | some p =>
      have final := kept dep.name p known
      constructor
      · exact fun all => ⟨p, final, all p rfl⟩
      · rintro ⟨q, found, hit⟩ q' ⟨⟩
        cases final.symm.trans found
        exact hit
  | none =>
      obtain ⟨q, found, rfl⟩ := fresh known
      exact iff_of_true nofun ⟨q, later dep.name q found, (bestMatch_spec pinned).2.1⟩

/-- What a call of the search guarantees, for a map `last` that extends its result. -/
structure Searched (r : PkgRegistry) (last : Resolved) (matching : Prop) (name : String) (v : Version)
    (before next : Resolved) : Prop where
  reached : ∃ order, Reached r next order
  kept : Extends before next
  pinned : before[name]? = none → ∃ q, next[name]? = some q ∧ q.version = v
  iff_met : Extends next last → (matching ↔ ∀ p, Added before next p → Met r last p)

theorem depsReuseMatching_iff {inner : String → Version → Resolved → Option (Except PkgError Resolved)}
    {innerMatching : String → Version → Resolved → Prop} {last : Resolved}
    (step : ∀ name v before next, (∃ order, Reached r before order) →
      inner name v before = some (.ok next) → Searched r last (innerMatching name v before) name v before next)
    {deps : List Dependency} {before next : Resolved} (reached : ∃ order, Reached r before order)
    (h : resolveDeps r inner deps before = some (.ok next)) :
    Extends before next ∧ (Extends next last →
      (DepsReuseMatching r inner innerMatching deps before ↔
        (∀ p, Added before next p → Met r last p) ∧
          ∀ dep ∈ deps, ∃ q, last[dep.name]? = some q ∧ dep.req.matches q.version = true)) := by
  induction deps generalizing before with
  | nil =>
      cases h
      exact ⟨fun _ _ found => found, fun _ =>
        iff_of_true trivial ⟨fun p added => absurd added not_added_self, nofun⟩⟩
  | cons dep deps ih =>
      obtain ⟨v, mid, pinned, done, rest⟩ := resolveDeps_cons h
      have searched := step dep.name v before mid reached done
      obtain ⟨more, others⟩ := ih searched.reached rest
      refine ⟨searched.kept.trans more, fun later => ?_⟩
      have own := met_iff_of_searched pinned (searched.kept.trans (more.trans later)) searched.pinned
        (more.trans later)
      rw [depsReuseMatching_cons pinned done, own, searched.iff_met (more.trans later), others later,
        List.forall_mem_cons]
      have split (p : ResolvedPkg) := added_trans more searched.kept p
      constructor
      · rintro ⟨here, early, late, there⟩
        exact ⟨fun p added => ((split p).mp added).elim (early p) (late p), here, there⟩
      · rintro ⟨all, here, there⟩
        exact ⟨here, fun p added => all p ((split p).mpr (.inl added)),
          fun p added => all p ((split p).mpr (.inr added)), there⟩

theorem reusesMatching_iff {fuel : ℕ} {name : String} {v : Version} {path : List String}
    {before next last : Resolved} (reached : ∃ order, Reached r before order)
    (h : resolveInner r fuel name v path before = some (.ok next)) :
    Searched r last (ReusesMatching r fuel name v path before) name v before next := by
  induction fuel generalizing name v path before next with
  | zero => cases h
  | succ fuel ih =>
      obtain ⟨order, reach⟩ := reached
      obtain ⟨new, grown, atName, -⟩ := resolveInner_grown reach h
      obtain ⟨off, ⟨known, rfl⟩ | ⟨unknown, entry, mid, found, done, rfl⟩⟩ := resolveInner_ok h
      · refine ⟨⟨order, reach⟩, fun _ _ same => same, fun absent => ?_, fun _ => ?_⟩
        · rw [Std.ExtTreeMap.mem_iff_isSome_getElem?, absent] at known
          cases known
        · exact iff_of_true (fun _ fresh => absurd known fresh) fun p added => absurd added not_added_self
      · obtain ⟨below, less, -⟩ := resolveDeps_grown
          (fun n w b o l reach' called => by
            obtain ⟨new', grown', -, listed⟩ := resolveInner_grown reach' called
            exact ⟨new', grown', listed⟩) reach done
        obtain ⟨extends_mid, others⟩ := depsReuseMatching_iff
          (fun n w b l reach' called => ih reach' called) ⟨order, reach⟩ done
        have absent : mid[name]? = none := by
          cases held : mid[name]? with
          | none => rfl
          | some q =>
              obtain ⟨member, named⟩ := (less.reached.lists name q).mp held
              exact absurd named (less.fresh reach unknown q member)
        obtain ⟨anchored, added⟩ := insert_fresh (⟨name, v, entry.integrity⟩ : ResolvedPkg) absent
        refine ⟨⟨_, grown.reached⟩, extends_mid.trans anchored,
          fun _ => ⟨_, Std.ExtTreeMap.getElem?_insert_self, rfl⟩, fun later => ?_⟩
        have deps : pinnedDeps r ⟨name, v, entry.integrity⟩ = entry.manifest.deps := pinnedDeps_of_entry found
        rw [reusesMatching_entry off unknown found, others (anchored.trans later)]
        constructor
        · rintro ⟨all, own⟩ p fresh
          obtain early | top := (added_trans anchored extends_mid p).mp fresh
          · exact all p early
          · rw [(added p).mp top, Met, deps]
            exact own
        · intro all
          refine ⟨fun p early => all p ((added_trans anchored extends_mid p).mpr (.inl early)), ?_⟩
          have own := all _ ((added_trans anchored extends_mid _).mpr (.inr ((added _).mpr rfl)))
          rwa [Met, deps] at own

end

/-- Every dependency of every package is in the plan at a version that its requirement allows. -/
def MeetsRequirements (r : PkgRegistry) (plan : ResolutionPlan) : Prop :=
  ∀ p ∈ plan.packages, ∀ dep ∈ pinnedDeps r p,
    ∃ q ∈ plan.packages, q.name = dep.name ∧ dep.req.matches q.version = true

instance (r : PkgRegistry) (plan : ResolutionPlan) : Decidable (MeetsRequirements r plan) :=
  inferInstanceAs (Decidable (∀ p ∈ plan.packages, ∀ dep ∈ pinnedDeps r p,
    ∃ q ∈ plan.packages, q.name = dep.name ∧ dep.req.matches q.version = true))

/-- The requirements are met exactly where the search has reused no version that a
requirement excludes. -/
theorem requirements_met_iff (r : PkgRegistry) (root : String) (plan : ResolutionPlan)
    (h : r.resolve root = some (.ok plan)) : MeetsRequirements r plan ↔ NoStaleReuse r root := by
  obtain ⟨v, resolved, order, top, done, packages, reached, -, -⟩ := resolve_reached h
  have searched : Searched r resolved _ root v ∅ resolved := reusesMatching_iff ⟨[], reached_empty⟩ done
  have condition : NoStaleReuse r root ↔ ReusesMatching r (r.packages.size + 1) root v [] ∅ := by
    constructor
    · exact fun all => all v top
    · intro matching w top'
      cases top.symm.trans top'
      exact matching
  rw [condition, searched.iff_met fun _ _ found => found]
  have members (q : ResolvedPkg) : q ∈ plan.packages ↔ q ∈ order := by
    rw [packages]
    exact reached.mem_values
  have found_iff (dep : Dependency) : (∃ q ∈ plan.packages, q.name = dep.name ∧
      dep.req.matches q.version = true) ↔
        ∃ q, resolved[dep.name]? = some q ∧ dep.req.matches q.version = true := by
    refine exists_congr fun q => ?_
    rw [members, reached.lists, and_assoc]
  constructor
  · rintro all p ⟨n, -, held⟩ dep inside
    have listed := ((reached.lists n p).mp held).1
    exact (found_iff dep).mp (all p ((members p).mpr listed) dep inside)
  · intro all p member dep inside
    have held := (reached.lists p.name p).mpr ⟨(members p).mp member, rfl⟩
    exact (found_iff dep).mpr (all p ⟨p.name, Std.ExtTreeMap.getElem?_empty, held⟩ dep inside)

section
variable (r : PkgRegistry) (root : String)

/-- Every requirement on the way from the root allows every version under which its name is come to. -/
def Agreeing : Prop :=
  ∀ path name v e, Leads r root path name v → r.entryAt name v = some e → ∀ dep ∈ e.manifest.deps,
    ∀ path' w, Leads r root path' dep.name w → dep.req.matches w = true

/-- The search has come to everything that is resolved. -/
def Led (resolved : Resolved) : Prop :=
  ∀ (n : String) (p : ResolvedPkg), resolved[n]? = some p → ∃ path, Leads r root path n p.version

end

section
variable {r : PkgRegistry} {root : String}

theorem resolveDeps_keeps {inner : String → Version → Resolved → Option (Except PkgError Resolved)}
    {Q : Resolved → Prop} {deps : List Dependency} {before next : Resolved}
    (step : ∀ dep ∈ deps, ∀ v mid mid', r.bestMatch dep.name dep.req = some v → Q mid →
      inner dep.name v mid = some (.ok mid') → Q mid')
    (start : Q before) (h : resolveDeps r inner deps before = some (.ok next)) : Q next := by
  induction deps generalizing before with
  | nil =>
      cases h
      exact start
  | cons dep deps ih =>
      obtain ⟨v, mid, pinned, done, rest⟩ := resolveDeps_cons h
      exact ih (fun other member => step other (.tail _ member)) (step dep (.head _) v before mid pinned start done)
        rest

theorem led_resolveInner {fuel : ℕ} {name : String} {v : Version} {path : List String} {before next : Resolved}
    (leads : Leads r root path name v) (led : Led r root before)
    (h : resolveInner r fuel name v path before = some (.ok next)) : Led r root next := by
  induction fuel generalizing name v path before next with
  | zero => cases h
  | succ fuel ih =>
      obtain ⟨-, ⟨-, rfl⟩ | ⟨-, entry, mid, found, done, rfl⟩⟩ := resolveInner_ok h
      · exact led
      · have below : Led r root mid := resolveDeps_keeps
          (fun dep listed w _ _ pinned led' called => ih (leads.dep found listed pinned) led' called) led done
        intro n p held
        rw [lookup_insert] at held
        split_ifs at held with same
        · cases held
          exact ⟨path, same ▸ leads⟩
        · exact below n p held

/-- In such a registry the search meets a known name only under requirements that its version meets. -/
theorem reusesMatching_of_agreeing (agree : Agreeing r root) {fuel : ℕ} {name : String} {v : Version}
    {path : List String} {before : Resolved} (leads : Leads r root path name v) (led : Led r root before) :
    ReusesMatching r fuel name v path before := by
  induction fuel generalizing name v path before with
  | zero => trivial
  | succ fuel ih =>
      intro _ _ entry found
      -- the loop, from any of the dependencies on
      have loop (deps : List Dependency) (listed : deps ⊆ entry.manifest.deps) (before : Resolved)
          (led : Led r root before) : DepsReuseMatching r (fun dep w => resolveInner r fuel dep w (path ++ [name]))
            (fun dep w => ReusesMatching r fuel dep w (path ++ [name])) deps before := by
        induction deps generalizing before with
        | nil => trivial
        | cons dep deps ihDeps =>
            obtain ⟨here, rest⟩ := List.cons_subset.mp listed
            refine ⟨fun q known => ?_, fun w pinned => ⟨ih (leads.dep found here pinned) led, fun next done => ?_⟩⟩
            · obtain ⟨path', way⟩ := led dep.name q known
              exact agree path name v entry leads found dep here path' q.version way
            · exact ihDeps rest next (led_resolveInner (leads.dep found here pinned) led done)
      exact loop entry.manifest.deps (List.Subset.refl _) before led

theorem noStaleReuse_of_agreeing (agree : Agreeing r root) : NoStaleReuse r root := by
  intro v top
  refine reusesMatching_of_agreeing agree (.root top) fun n p held => ?_
  rw [Std.ExtTreeMap.getElem?_empty] at held
  cases held

/-- A list of packages that is closed under the pins of its requirements, and in which these agree. -/
theorem agreeing_of_closed {packages : List (String × Version)}
    (top : ∀ v, r.highest root = some v → (root, v) ∈ packages)
    (closed : ∀ p ∈ packages, ∀ e, r.entryAt p.1 p.2 = some e → ∀ dep ∈ e.manifest.deps,
      (∀ w, r.bestMatch dep.name dep.req = some w → (dep.name, w) ∈ packages) ∧
        ∀ q ∈ packages, q.1 = dep.name → dep.req.matches q.2 = true) : Agreeing r root := by
  have inside {path : List String} {name : String} {v : Version} (leads : Leads r root path name v) :
      (name, v) ∈ packages := by
    induction leads with
    | root highest => exact top _ highest
    | dep _ found listed pinned ih => exact (closed _ ih _ found _ listed).1 _ pinned
  intro path name v e leads found dep listed path' w leads'
  exact (closed (name, v) (inside leads) e found dep listed).2 (dep.name, w) (inside leads') rfl

/-- Outside of these registries a plan has a requirement whose best match is another version than the one in the plan:
the search has come to a name that was resolved already at that version. -/
theorem agreeing_of_best {plan : ResolutionPlan} (h : r.resolve root = some (.ok plan))
    (best : ∀ p ∈ plan.packages, ∀ dep ∈ pinnedDeps r p, ∃ q ∈ plan.packages, q.name = dep.name ∧
      r.bestMatch dep.name dep.req = some q.version) : Agreeing r root := by
  obtain ⟨v, resolved, order, top, -, packages, reached, ⟨p, listed, rfl, rfl⟩, -⟩ := resolve_reached h
  have members (q : ResolvedPkg) : q ∈ plan.packages ↔ q ∈ order := by
    rw [packages]
    exact reached.mem_values
  have single {q q' : ResolvedPkg} (member : q ∈ plan.packages) (member' : q' ∈ plan.packages)
      (same : q.name = q'.name) : q = q' := by
    have held := (reached.lists q'.name q).mpr ⟨(members q).mp member, same⟩
    have held' := (reached.lists q'.name q').mpr ⟨(members q').mp member', rfl⟩
    exact Option.some.inj (held.symm.trans held')
  have root_in (w : Version) (highest : r.highest p.name = some w) :
      (p.name, w) ∈ plan.packages.map fun q => (q.name, q.version) := by
    cases top.symm.trans highest
    exact List.mem_map.mpr ⟨p, (members p).mpr listed, rfl⟩
  refine agreeing_of_closed root_in ?_
  rintro _ inside e found dep required
  obtain ⟨a, member, rfl⟩ := List.mem_map.mp inside
  rw [← pinnedDeps_of_entry found] at required
  obtain ⟨q, planned, named, pinned⟩ := best a member dep required
  refine ⟨fun w pinned' => ?_, ?_⟩
  · cases pinned.symm.trans pinned'
    exact List.mem_map.mpr ⟨q, planned, by rw [named]⟩
  · rintro _ inside' same
    obtain ⟨b, member', rfl⟩ := List.mem_map.mp inside'
    cases single member' planned (same.trans named.symm)
    exact (bestMatch_spec pinned).2.1

end

/-- A plan meets its requirements where those that can be come to from the root agree. -/
theorem requirements_met_of_agreeing (r : PkgRegistry) (root : String) (agree : Agreeing r root)
    (plan : ResolutionPlan) (h : r.resolve root = some (.ok plan)) : MeetsRequirements r plan :=
  (requirements_met_iff r root plan h).mpr (noStaleReuse_of_agreeing agree)

def sharedPackages : List (String × Version) :=
  [("app", ⟨1, 0, 0⟩), ("net", ⟨2, 1, 0⟩), ("base", ⟨1, 4, 0⟩)]

theorem shared_agreeing : Agreeing (after latin1 shared) "app" := by
  have closed : (∀ v ∈ (after latin1 shared).highest "app", ("app", v) ∈ sharedPackages) ∧
      ∀ p ∈ sharedPackages, ∀ e ∈ (after latin1 shared).entryAt p.1 p.2, ∀ dep ∈ e.manifest.deps,
        (∀ w ∈ (after latin1 shared).bestMatch dep.name dep.req, (dep.name, w) ∈ sharedPackages) ∧
          ∀ q ∈ sharedPackages, q.1 = dep.name → dep.req.matches q.2 = true := by
    decide +kernel
  exact agreeing_of_closed closed.1 closed.2

/-- `base` is required twice, in one range. -/
theorem shared_requirements_met : MeetsRequirements (after latin1 shared)
    ⟨[⟨"app", ⟨1, 0, 0⟩, latin1 [1]⟩, ⟨"base", ⟨1, 4, 0⟩, latin1 [4]⟩, ⟨"net", ⟨2, 1, 0⟩, latin1 [3]⟩]⟩ :=
  requirements_met_of_agreeing _ "app" shared_agreeing _ (by decide +kernel)

/-- The second requirement on `base` excludes the version that the first one has pinned. -/
def diamond : List Call :=
  [(⟨"base", ⟨1, 0, 0⟩, []⟩, [1]), (⟨"base", ⟨1, 4, 0⟩, []⟩, [2]),
    (⟨"net", ⟨1, 0, 0⟩, [⟨"base", .exact ⟨1, 4, 0⟩⟩]⟩, [3]),
    (⟨"app", ⟨1, 0, 0⟩, [⟨"base", .exact ⟨1, 0, 0⟩⟩, ⟨"net", .caret ⟨1, 0, 0⟩⟩]⟩, [4])]

theorem diamond_requirement_unmet :
    (after latin1 diamond).resolve "app" = some (.ok
      ⟨[⟨"app", ⟨1, 0, 0⟩, latin1 [4]⟩, ⟨"base", ⟨1, 0, 0⟩, latin1 [1]⟩, ⟨"net", ⟨1, 0, 0⟩, latin1 [3]⟩]⟩) ∧
    ¬ MeetsRequirements (after latin1 diamond)
      ⟨[⟨"app", ⟨1, 0, 0⟩, latin1 [4]⟩, ⟨"base", ⟨1, 0, 0⟩, latin1 [1]⟩, ⟨"net", ⟨1, 0, 0⟩, latin1 [3]⟩]⟩ := by
  constructor <;> decide +kernel

end KaiOs.Pkg
