import KaiOs.Pkg.Causes
import KaiOs.Pkg.Requirements

/-! What later publishing does to a plan: nothing, unless it offers the root or a requirement of the plan something
newer. -/
namespace KaiOs.Pkg
open Utf8 WriteOnce PkgRegistry

/-- The call publishes a version that is newer than the root's, or than what a requirement of the plan pins. -/
def Disturbs (r : PkgRegistry) (root : String) (plan : ResolutionPlan) (call : Call) : Prop :=
  (call.1.name = root ∧ ∀ v ∈ r.highest root, ¬ call.1.version ≤ v) ∨
  ∃ p ∈ plan.packages, ∃ dep ∈ pinnedDeps r p, call.1.name = dep.name ∧
    dep.req.matches call.1.version = true ∧ ∀ v ∈ r.bestMatch dep.name dep.req, ¬ call.1.version ≤ v

instance (r : PkgRegistry) (root : String) (plan : ResolutionPlan) (call : Call) :
    Decidable (Disturbs r root plan call) :=
  inferInstanceAs (Decidable (_ ∨ ∃ p ∈ plan.packages, ∃ dep ∈ pinnedDeps r p, _))

/-- The larger registry has what the smaller one has. -/
def Keeps (r r' : PkgRegistry) : Prop := ∀ name v e, r.entryAt name v = some e → r'.entryAt name v = some e

/-- The requirements of the package are pinned to the same versions. -/
def SamePins (r r' : PkgRegistry) (p : ResolvedPkg) : Prop :=
  ∀ dep ∈ pinnedDeps r p, ∀ v, r.bestMatch dep.name dep.req = some v → r'.bestMatch dep.name dep.req = some v

theorem version_antisymm {v w : Version} (le : v ≤ w) (ge : w ≤ v) : v = w :=
  Std.LawfulEqOrd.eq_of_compare (Std.OrientedCmp.isLE_antisymm le ge)

section
variable {r r' : PkgRegistry} (keeps : Keeps r r')
include keeps

theorem Keeps.isSome {name : String} {v : Version} (published : (r.entryAt name v).isSome) :
    (r'.entryAt name v).isSome := by
  obtain ⟨e, found⟩ := Option.isSome_iff_exists.mp published
  rw [keeps name v e found]
  rfl

theorem Keeps.bestMatch {name : String} {req : VersionReq} {v : Version} (pinned : r.bestMatch name req = some v)
    (newest : ∀ w, (r'.entryAt name w).isSome → req.matches w = true → w ≤ v) : r'.bestMatch name req = some v := by
  obtain ⟨published, hit, -⟩ := bestMatch_spec pinned
  cases found : r'.bestMatch name req with
  | none =>
      rw [bestMatch_eq_none.mp found v (keeps.isSome published)] at hit
      cases hit
  | some u =>
      obtain ⟨published', hit', top⟩ := bestMatch_spec found
      rw [version_antisymm (newest u published' hit') (top v (keeps.isSome published) hit)]

theorem Keeps.highest {name : String} {v : Version} (last : r.highest name = some v)
    (newest : ∀ w, (r'.entryAt name w).isSome → w ≤ v) : r'.highest name = some v := by
  obtain ⟨published, -⟩ := highest_spec last
  cases found : r'.highest name with
  | none =>
      have there := keeps.isSome published
      rw [highest_eq_none.mp found v] at there
      cases there
  | some u =>
      obtain ⟨published', top⟩ := highest_spec found
      rw [version_antisymm (newest u published') (top v (keeps.isSome published))]

end

section
variable {r r' : PkgRegistry}

theorem below_absent {fuel : ℕ} {name : String} {path : List String} {before mid : Resolved}
    {order : List ResolvedPkg} {deps : List Dependency} (reach : Reached r before order) (unknown : name ∉ before)
    (done : resolveDeps r (fun dep w => resolveInner r fuel dep w (path ++ [name])) deps before = some (.ok mid)) :
    mid[name]? = none := by
  have step (n : String) (v : Version) (b : Resolved) (o : List ResolvedPkg) (l : Resolved) (reach' : Reached r b o)
      (called : resolveInner r fuel n v (path ++ [name]) b = some (.ok l)) :
      ∃ new, Grown r (fun q => q.name = n ∧ q.version = v) (path ++ [name]) o l new ∧
        ∃ p ∈ new ++ o, p.name = n := by
    obtain ⟨new, grown, -, listed⟩ := resolveInner_grown reach' called
    exact ⟨new, grown, listed⟩
  obtain ⟨below, grown, -⟩ := resolveDeps_grown step reach done
  cases held : mid[name]? with
  | none => rfl
  | some q =>
      obtain ⟨member, named⟩ := (grown.reached.lists name q).mp held
      exact absurd named (grown.fresh reach unknown q member)

variable {last : Resolved}

theorem resolveDeps_stays {inner inner' : String → Version → Resolved → Option (Except PkgError Resolved)}
    (step : ∀ name v before next, (∃ order, Reached r before order) → inner name v before = some (.ok next) →
      (∃ order, Reached r next order) ∧ Extends before next ∧
        (Extends next last → inner' name v before = some (.ok next)))
    {deps : List Dependency}
    (pins : ∀ dep ∈ deps, ∀ v, r.bestMatch dep.name dep.req = some v → r'.bestMatch dep.name dep.req = some v)
    {before next : Resolved} (reached : ∃ order, Reached r before order)
    (h : resolveDeps r inner deps before = some (.ok next)) :
    Extends before next ∧ (Extends next last → resolveDeps r' inner' deps before = some (.ok next)) := by
  induction deps generalizing before with
  | nil =>
      cases h
      exact ⟨fun _ _ found => found, fun _ => rfl⟩
  | cons dep deps ih =>
      obtain ⟨v, mid, pinned, done, rest⟩ := resolveDeps_cons h
      obtain ⟨reached', kept, same⟩ := step dep.name v before mid reached done
      obtain ⟨pin, pins⟩ := List.forall_mem_cons.mp pins
      obtain ⟨more, others⟩ := ih pins reached' rest
      refine ⟨kept.trans more, fun later => ?_⟩
      rw [resolveDeps, pin v pinned]
      simp only [same (more.trans later), others later]

/-- A search that succeeds is the same in a larger registry, if what it has found in the end is pinned to the same
versions there. -/
theorem resolveInner_stays (keeps : Keeps r r') (steady : ∀ (n : String) p, last[n]? = some p → SamePins r r' p)
    {fuel : ℕ} {name : String} {v : Version} {path : List String} {before next : Resolved}
    (reached : ∃ order, Reached r before order) (h : resolveInner r fuel name v path before = some (.ok next))
    (later : Extends next last) (extra : ℕ) :
    resolveInner r' (fuel + extra) name v path before = some (.ok next) := by
  induction fuel generalizing name v path before next with
  | zero => cases h
  | succ fuel ih =>
      rw [Nat.add_right_comm]
      obtain ⟨off, ⟨known, rfl⟩ | ⟨unknown, entry, mid, found, done, rfl⟩⟩ := resolveInner_ok h
      · simp [resolveInner, off, known]
      · obtain ⟨order, reach⟩ := reached
        obtain ⟨anchored, -⟩ := insert_fresh (⟨name, v, entry.integrity⟩ : ResolvedPkg)
          (below_absent reach unknown done)
        have pins := steady name _ (later name _ Std.ExtTreeMap.getElem?_insert_self)
        have deps : pinnedDeps r ⟨name, v, entry.integrity⟩ = entry.manifest.deps := pinnedDeps_of_entry found
        rw [SamePins, deps] at pins
        have step (n : String) (w : Version) (b l : Resolved) (reach' : ∃ order, Reached r b order)
            (called : resolveInner r fuel n w (path ++ [name]) b = some (.ok l)) :
            (∃ order, Reached r l order) ∧ Extends b l ∧
              (Extends l last → resolveInner r' (fuel + extra) n w (path ++ [name]) b = some (.ok l)) := by
          have searched : Searched r l _ n w b l := reusesMatching_iff reach' called
          exact ⟨searched.reached, searched.kept, fun later => ih reach' called later⟩
        have same := (resolveDeps_stays step pins ⟨order, reach⟩ done).2 (anchored.trans later)
        have fresh : before.contains name = false := by
          rw [Bool.eq_false_iff, ne_eq, Std.ExtTreeMap.contains_iff_mem]
          exact unknown
        simp only [resolveInner, List.contains_iff_mem, off, if_false, fresh, keeps name v entry found, same,
          Bool.false_eq_true]

end

section
variable (shaHex : Bytes → String)

theorem keeps_more (calls more : List Call) : Keeps (after shaHex calls) (after shaHex (calls ++ more)) :=
  fun _ _ _ found => entryAt_stays shaHex found more

theorem mem_publish {r : PkgRegistry} {name : String} (known : name ∈ r.packages) (call : Call) :
    name ∈ (r.publish shaHex call.1 call.2).2.packages := by
  simp only [publish]
  repeat' split
  all_goals exact Std.ExtTreeMap.mem_insert.mpr (.inr known)

theorem size_le_more (calls more : List Call) :
    (after shaHex calls).packages.size ≤ (after shaHex (calls ++ more)).packages.size := by
  have kept (name : String) (known : name ∈ (after shaHex calls).packages) :
      name ∈ (after shaHex (calls ++ more)).packages := by
    induction more using List.reverseRecOn with
    | nil =>
        rw [List.append_nil]
        exact known
    | append_singleton more call ih =>
        rw [← List.append_assoc, after_concat]
        exact mem_publish shaHex ih call
  rw [← Std.ExtTreeMap.length_keys]
  exact length_le_size Std.ExtTreeMap.nodup_keys fun name member => kept name (Std.ExtTreeMap.mem_keys.mp member)

theorem published_by {calls more : List Call} {name : String} {v : Version}
    (published : ((after shaHex (calls ++ more)).entryAt name v).isSome) :
    ((after shaHex calls).entryAt name v).isSome ∨ ∃ call ∈ more, slotOf call = (name, v) := by
  rw [entryAt_after, first_append, Option.isSome_or, Bool.or_eq_true, ← entryAt_after] at published
  obtain known | new := published
  · exact .inl known
  · obtain ⟨e, found⟩ := Option.isSome_iff_exists.mp new
    obtain ⟨call, member, slot, -⟩ := mem_of_first found
    exact .inr ⟨call, member, slot⟩

/-- Whatever is published later, a plan stays as it is, unless a call offers the root or a requirement of the plan
something newer. -/
theorem plan_stays {calls more : List Call} {root : String} {plan : ResolutionPlan}
    (resolved : (after shaHex calls).resolve root = some (.ok plan))
    (calm : ∀ call ∈ more, ¬ Disturbs (after shaHex calls) root plan call) :
    (after shaHex (calls ++ more)).resolve root = some (.ok plan) := by
  have keeps := keeps_more shaHex calls more
  obtain ⟨v, last, order, top, done, packages, reached, -, -⟩ := resolve_reached resolved
  have top' : (after shaHex (calls ++ more)).highest root = some v := by
    refine keeps.highest top fun w published => ?_
    obtain known | ⟨call, member, slot⟩ := published_by shaHex published
    · exact (highest_spec top).2 w known
    · obtain ⟨rfl, rfl⟩ := Prod.mk.inj slot
      by_contra newer
      exact calm call member (.inl ⟨rfl, fun u last => by cases top.symm.trans last; exact newer⟩)
  have steady (n : String) (p : ResolvedPkg) (held : last[n]? = some p) :
      SamePins (after shaHex calls) (after shaHex (calls ++ more)) p := by
    intro dep listed u pinned
    have inPlan : p ∈ plan.packages := by
      rw [packages]
      exact reached.mem_values.mpr ((reached.lists n p).mp held).1
    refine keeps.bestMatch pinned fun w published hit => ?_
    obtain known | ⟨call, member, slot⟩ := published_by shaHex published
    · exact (bestMatch_spec pinned).2.2 w known hit
    · obtain ⟨named, rfl⟩ := Prod.mk.inj slot
      by_contra newer
      exact calm call member (.inr ⟨p, inPlan, dep, listed, named, hit,
        fun u' best => by cases pinned.symm.trans best; exact newer⟩)
  obtain ⟨extra, size⟩ := Nat.exists_eq_add_of_le (size_le_more shaHex calls more)
  have again := resolveInner_stays keeps steady ⟨[], reached_empty⟩ done (fun _ _ found => found) extra
  rw [Nat.add_right_comm, ← size] at again
  rw [resolve, top']
  simp only [again, Option.map_some, Except.map, ← packages]

/-- An older version, one outside of every requirement, a new package and a version that is taken. -/
theorem plan_stays_shared :
    (after latin1 (shared ++ [(⟨"base", ⟨1, 2, 0⟩, []⟩, [5]), (⟨"net", ⟨3, 0, 0⟩, []⟩, [6]),
      (⟨"log", ⟨1, 0, 0⟩, [⟨"app", .caret ⟨1, 0, 0⟩⟩]⟩, [7]),
      (⟨"app", ⟨1, 0, 0⟩, []⟩, [8])])).resolve "app" = some (.ok
        ⟨[⟨"app", ⟨1, 0, 0⟩, latin1 [1]⟩, ⟨"base", ⟨1, 4, 0⟩, latin1 [4]⟩, ⟨"net", ⟨2, 1, 0⟩, latin1 [3]⟩]⟩) :=
  plan_stays latin1 (by decide +kernel) (by decide +kernel)

end
end KaiOs.Pkg
