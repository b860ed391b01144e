import KaiOs.Pkg.Publishing

/-! Failed resolutions. Each error is traced back along the dependencies that the search has
followed from the root. -/
namespace KaiOs.Pkg
open PkgRegistry

/-- Pinned dependencies followed from the root: the names passed, and the package they lead to. -/
inductive Leads (r : PkgRegistry) (root : String) : List String → String → Version → Prop
  | root {v : Version} (top : r.highest root = some v) : Leads r root [] root v
  | dep {path : List String} {name : String} {v w : Version} {e : PkgEntry} {dep : Dependency}
      (before : Leads r root path name v) (found : r.entryAt name v = some e)
      (listed : dep ∈ e.manifest.deps) (pinned : r.bestMatch dep.name dep.req = some w) :
      Leads r root (path ++ [name]) dep.name w

section
variable {r : PkgRegistry} {root : String}

theorem bestMatch_eq_none {name : String} {req : VersionReq} :
    r.bestMatch name req = none ↔ ∀ w, (r.entryAt name w).isSome → req.matches w = false := by
  rw [bestMatch]
  cases found : r.packages[name]? with
  | none => exact iff_of_true rfl fun w published => by simp [entryAt, found] at published
  | some slot =>
      rw [Option.bind_some, List.find?_eq_none]
      constructor
      · intro unmet w published
        exact (Bool.not_eq_true _).mp (unmet w (List.mem_reverse.mpr (mem_of_entryAt found published)))
      · intro unmet w member
        rw [unmet w (entryAt_isSome_of_mem found (List.mem_reverse.mp member))]
        exact Bool.false_ne_true

theorem highest_eq_none {name : String} : r.highest name = none ↔ ∀ v, r.entryAt name v = none := by
  rw [highest]
  cases found : r.packages[name]? with
  | none => exact iff_of_true rfl fun v => by rw [entryAt, found, Option.bind_none]
  | some slot =>
      rw [Option.bind_some, List.getLast?_eq_none_iff, List.eq_nil_iff_forall_not_mem]
      refine forall_congr' fun v => ?_
      rw [← Option.not_isSome_iff_eq_none]
      exact not_congr ⟨entryAt_isSome_of_mem found, mem_of_entryAt found⟩

theorem Leads.published {path : List String} {name : String} {v : Version} (leads : Leads r root path name v) :
    (r.entryAt name v).isSome := by
  cases leads with
  | root top => exact (highest_spec top).1
  | dep _ _ _ pinned => exact (bestMatch_spec pinned).1

/-- Why a resolution may fail. -/
inductive Cause (r : PkgRegistry) (root : String) : PkgError → Prop
  | cycle {path : List String} {name : String} {v : Version} (leads : Leads r root path name v)
      (again : name ∈ path) : Cause r root (.cycleDetected name)
  | missing {path : List String} {name : String} {v : Version} {e : PkgEntry} {dep : Dependency}
      (leads : Leads r root path name v) (found : r.entryAt name v = some e) (listed : dep ∈ e.manifest.deps)
      (unmet : r.bestMatch dep.name dep.req = none) : Cause r root (.missingDependency dep.name dep.req)
  | poisoned (unpublished : r.highest root = none) : Cause r root (.registryPoisoned root)

theorem resolveDeps_error {inner : String → Version → Resolved → Option (Except PkgError Resolved)}
    {deps : List Dependency} {resolved : Resolved} {err : PkgError}
    (h : resolveDeps r inner deps resolved = some (.error err)) :
    ∃ dep ∈ deps, (r.bestMatch dep.name dep.req = none ∧ err = .missingDependency dep.name dep.req) ∨
      ∃ v before, r.bestMatch dep.name dep.req = some v ∧ inner dep.name v before = some (.error err) := by
  induction deps generalizing resolved with
  | nil => cases h
  | cons dep deps ih =>
      simp only [resolveDeps] at h
      split at h
      · next unmet =>
          cases h
          exact ⟨dep, .head _, .inl ⟨unmet, rfl⟩⟩
      · next v pinned =>
          split at h
          · cases h
          · next e failed =>
              cases h
              exact ⟨dep, .head _, .inr ⟨v, resolved, pinned, failed⟩⟩
          · next resolved' done =>
              obtain ⟨other, member, cause⟩ := ih h
              exact ⟨other, .tail _ member, cause⟩

/-- A search that is on a path from the root fails for a cause on such a path. -/
theorem resolveInner_error {fuel : ℕ} {name : String} {v : Version} {path : List String} {resolved : Resolved}
    {err : PkgError} (leads : Leads r root path name v)
    (h : resolveInner r fuel name v path resolved = some (.error err)) : Cause r root err := by
  induction fuel generalizing name v path resolved with
  | zero => cases h
  | succ fuel ih =>
      rw [resolveInner] at h
      split_ifs at h with again known
      · cases h
        exact .cycle leads (List.contains_iff_mem.mp again)
      · cases h
      · obtain ⟨e, found⟩ := Option.isSome_iff_exists.mp leads.published
        rw [found] at h
        dsimp only at h
        split at h
        · cases h
        · next err' failed =>
            cases h
            obtain ⟨dep, listed, ⟨unmet, rfl⟩ | ⟨w, before, pinned, inner⟩⟩ := resolveDeps_error failed
            · exact .missing leads found listed unmet
            · exact ih (leads.dep found listed pinned) inner
        · cases h

theorem resolve_error {err : PkgError} (h : r.resolve root = some (.error err)) : Cause r root err := by
  rw [resolve] at h
  split at h
  · next unpublished =>
      cases h
      exact .poisoned unpublished
  · next v top =>
      obtain ⟨result, done, h⟩ := Option.map_eq_some_iff.mp h
      cases result with
      | ok resolved => cases h
      | error err' =>
          cases h
          exact resolveInner_error (.root top) done

end

/-- A resolution ends, fails only with an error that has its cause on the way from the root, and
succeeds where there is no cause. -/
theorem resolve_fails_for_cause (shaHex : Utf8.Bytes → String) (calls : List Call) (root : String) :
    ∃ result, (after shaHex calls).resolve root = some result ∧
      (∀ n, result = .error (.cycleDetected n) → ∃ path v, Leads (after shaHex calls) root path n v ∧ n ∈ path) ∧
      (∀ n req, result = .error (.missingDependency n req) →
        (∃ path name v e, Leads (after shaHex calls) root path name v ∧
          (after shaHex calls).entryAt name v = some e ∧ ⟨n, req⟩ ∈ e.manifest.deps) ∧
        ∀ w, ((after shaHex calls).entryAt n w).isSome → req.matches w = false) ∧
      (∀ n, result = .error (.registryPoisoned n) → n = root ∧ ∀ v, (after shaHex calls).entryAt root v = none) ∧
      ((∃ v, ((after shaHex calls).entryAt root v).isSome) →
        (∀ path n v, Leads (after shaHex calls) root path n v → n ∉ path) →
        (∀ path name v e, Leads (after shaHex calls) root path name v →
          (after shaHex calls).entryAt name v = some e → ∀ dep ∈ e.manifest.deps,
            ∃ w, ((after shaHex calls).entryAt dep.name w).isSome ∧ dep.req.matches w = true) →
        ∃ plan, result = .ok plan) := by
  obtain ⟨result, done⟩ := Option.isSome_iff_exists.mp (resolve_isSome (r := after shaHex calls) root)
  refine ⟨result, done, ?_, ?_, ?_, ?_⟩
  · rintro n rfl
    cases resolve_error done with
    | cycle leads again => exact ⟨_, _, leads, again⟩
  · rintro n req rfl
    cases resolve_error done with
    | missing leads found listed unmet => exact ⟨⟨_, _, _, _, leads, found, listed⟩, bestMatch_eq_none.mp unmet⟩
  · rintro n rfl
    cases resolve_error done with
    | poisoned unpublished => exact ⟨rfl, highest_eq_none.mp unpublished⟩
  · rintro ⟨v, published⟩ acyclic satisfiable
    cases result with
    | ok plan => exact ⟨plan, rfl⟩
    | error err =>
        exfalso
        cases resolve_error done with
        | cycle leads again => exact acyclic _ _ _ leads again
        | missing leads found listed unmet =>
            obtain ⟨w, there, hit⟩ := satisfiable _ _ _ _ leads found _ listed
            rw [bestMatch_eq_none.mp unmet w there] at hit
            cases hit
        | poisoned unpublished =>
            rw [highest_eq_none.mp unpublished v] at published
            cases published

/-- Two packages that depend on each other. -/
example :
    (after latin1
      [(⟨"a", ⟨1, 0, 0⟩, [⟨"b", .caret ⟨1, 0, 0⟩⟩]⟩, [97]),
        (⟨"b", ⟨1, 0, 0⟩, [⟨"a", .caret ⟨1, 0, 0⟩⟩]⟩, [98])]).resolve "a" =
      some (.error (.cycleDetected "a")) := by
  decide +kernel

end KaiOs.Pkg
