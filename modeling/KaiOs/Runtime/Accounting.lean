import KaiOs.Lib.Sha256
import KaiOs.Runtime.Sandbox
import Mathlib.Algebra.GroupWithZero.Nat
import Mathlib.Data.List.DropRight
import Mathlib.Data.Set.Function

/-! The counters of the resource manager against the sums of what was accepted. -/
namespace KaiOs.Runtime
open Machine ResourceManager Traces

abbrev History := List (Action × Reply)

/-- The outcomes of the accepted calls of one sandbox. -/
def accepted (id : String) (history : History) : List ExecOutcome :=
  history.filterMap fun
    | (.execute s _, some (.ok outcome)) => if s.id = id then some outcome else none
    | _ => none

def sinceReset (history : History) : History := history.rtakeWhile (·.1 ≠ .resetTick)

def total (amount : ExecOutcome → ℕ) (id : String) (history : History) : ℕ :=
  ((accepted id history).map amount).sum

/-- The record of a sandbox says what the history says, and every quota is kept. -/
structure Accurate (s : Sandbox) (history : History) (rm : ResourceManager) : Prop where
  cpu : (rm.usageOf s.id).cpuMsUsed.toNat = total (ExecOutcome.gain .cpu) s.id (sinceReset history)
  cpu_le : (rm.usageOf s.id).cpuMsUsed ≤ s.capability.cpuMsPerTick
  memory : (rm.usageOf s.id).memoryBytesCurrent.toNat + total (ExecOutcome.loss .memory) s.id history =
    total (ExecOutcome.gain .memory) s.id history
  memory_le : (rm.usageOf s.id).memoryBytesCurrent ≤ s.capability.memoryBytes
  storage : (rm.usageOf s.id).storageBytesTotal.toNat = total (ExecOutcome.gain .storage) s.id history
  storage_le : (rm.usageOf s.id).storageBytesTotal ≤ s.capability.storageBytes
  sent : (rm.usageOf s.id).networkBytesOut.toNat = total (ExecOutcome.gain .networkOut) s.id history
  received : (rm.usageOf s.id).networkBytesIn.toNat = total (ExecOutcome.gain .networkIn) s.id history

/-- What the call adds fits into the counter. -/
def Fits (rm : ResourceManager) : Action → Prop
  | .execute s op => ∀ c n, op.demand s.capability = some (c, n) →
      ((rm.usageOf s.id).get c).toNat + n.toNat < 2 ^ 64
  | .resetTick => True

/-- The part of the history that a counter sums up. -/
def span : Counter → History → History
  | .cpu, history => sinceReset history
  | _, history => history

def Balanced (id : String) (history : History) (rm : ResourceManager) : Prop :=
  ∀ c, ((rm.usageOf id).get c).toNat + total (ExecOutcome.loss c) id (span c history) =
    total (ExecOutcome.gain c) id (span c history)

def Within (s : Sandbox) (rm : ResourceManager) : Prop :=
  ∀ c l, s.capability.limit c = some l → (rm.usageOf s.id).get c ≤ l

theorem total_zero (id : String) (history : History) : total (fun _ => 0) id history = 0 := by
  rw [total]
  induction accepted id history with
  | nil => rfl
  | cons outcome outcomes ih => rw [List.map_cons, List.sum_cons, ih]

theorem accurate_iff {s : Sandbox} {history : History} {rm : ResourceManager} :
    Accurate s history rm ↔ Balanced s.id history rm ∧ Within s rm := by
  have lossless (c : Counter) (other : c ≠ .memory) (part : History) :
      total (ExecOutcome.loss c) s.id part = 0 := by
    have none : ExecOutcome.loss c = fun _ => 0 := by
      cases c <;> first | rfl | exact absurd rfl other
    rw [none, total_zero]
  constructor
  · intro h
    constructor
    · intro c
      cases c with
      | memory => exact h.memory
      | cpu => rw [lossless .cpu nofun, Nat.add_zero]; exact h.cpu
      | storage => rw [lossless .storage nofun, Nat.add_zero]; exact h.storage
      | networkOut => rw [lossless .networkOut nofun, Nat.add_zero]; exact h.sent
      | networkIn => rw [lossless .networkIn nofun, Nat.add_zero]; exact h.received
    · intro c l limit
      cases c <;> cases limit
      · exact h.cpu_le
      · exact h.memory_le
      · exact h.storage_le
  · rintro ⟨balanced, within⟩
    have plain (c : Counter) (other : c ≠ .memory) :
        ((rm.usageOf s.id).get c).toNat = total (ExecOutcome.gain c) s.id (span c history) := by
      rw [← balanced c, lossless c other, Nat.add_zero]
    exact ⟨plain .cpu nofun, within .cpu _ rfl, balanced .memory, within .memory _ rfl,
      plain .storage nofun, within .storage _ rfl, plain .networkOut nofun, plain .networkIn nofun⟩

section
variable {amount : ExecOutcome → ℕ} {id : String} {history : History} {s : Sandbox} {op : Operation}

theorem total_concat (entry : Action × Reply) :
    total amount id (history ++ [entry]) = total amount id history + total amount id [entry] := by
  rw [total, accepted, List.filterMap_append, List.map_append, List.sum_append]
  rfl

theorem total_ok (outcome : ExecOutcome) :
    total amount id [(.execute s op, some (.ok outcome))] = if s.id = id then amount outcome else 0 := by
  by_cases own : s.id = id
  · simp only [total, accepted, List.filterMap_cons, own, if_true, List.filterMap_nil, List.map_cons,
      List.map_nil, List.sum_singleton]
  · simp only [total, accepted, List.filterMap_cons, own, if_false, List.filterMap_nil, List.map_nil,
      List.sum_nil]

theorem total_error (e : SandboxError) : total amount id [(.execute s op, some (.error e))] = 0 := rfl

theorem total_reset : total amount id [(.resetTick, none)] = 0 := rfl

theorem span_execute (c : Counter) (reply : Reply) :
    span c (history ++ [(.execute s op, reply)]) = span c history ++ [(.execute s op, reply)] := by
  cases c with
  | cpu => exact List.rtakeWhile_concat_pos _ _ _ (decide_eq_true nofun)
  | memory | storage | networkOut | networkIn => rfl

theorem span_reset : span .cpu (history ++ [(.resetTick, none)]) = [] :=
  List.rtakeWhile_concat_neg _ _ _ (by decide)

end

section
variable {t s : Sandbox} {op : Operation} {history : History} {rm rm' : ResourceManager}
  {result : Except SandboxError ExecOutcome}

theorem balanced_of_other {build : Build} (h : Balanced t.id history rm) (other : t.id ≠ s.id)
    (ended : Ended build s op rm result rm') :
    Balanced t.id (history ++ [(.execute s op, some result)]) rm' := by
  intro c
  have silent (amount : ExecOutcome → ℕ) : total amount t.id [(.execute s op, some result)] = 0 := by
    cases result with
    | error e => exact total_error e
    | ok outcome => rw [total_ok, if_neg (Ne.symm other)]
  rw [ended.frame other, span_execute, total_concat, total_concat, silent, silent]
  exact h c

theorem balanced_of_own (h : Balanced s.id history rm) (fits : Fits rm (.execute s op))
    (ended : Ended .release s op rm result rm') :
    Balanced s.id (history ++ [(.execute s op, some result)]) rm' := by
  intro d
  have before := h d
  rw [span_execute, total_concat, total_concat]
  cases ended with
  | rejected e exceeds => rw [total_error, total_error]; exact before
  | idle outcome none gain loss =>
      rw [total_ok, total_ok, if_pos rfl, if_pos rfl, gain, loss]
      exact before
  | booked c n sum outcome demand added within gain loss =>
      rw [total_ok, total_ok, if_pos rfl, if_pos rfl, gain, loss, usageOf_put_self]
      by_cases same : d = c
      · subst same
        rw [ResourceUsage.get_set_self, Build.eq_of_add added, toNat_add_of_fits (fits d n demand), if_pos rfl]
        omega
      · rw [ResourceUsage.get_set_of_ne _ _ same, if_neg same]
        exact before
  | freed bytes le none =>
      rw [total_ok, total_ok, if_pos rfl, if_pos rfl, usageOf_put_self]
      cases d with
      | memory =>
          have inside : bytes.toNat ≤ (rm.usageOf s.id).memoryBytesCurrent.toNat := le
          rw [ResourceUsage.get_set_self, UInt64.toNat_sub_of_le _ _ le]
          simp only [ExecOutcome.gain, ExecOutcome.loss, ResourceUsage.get] at before ⊢
          omega
      | cpu | storage | networkOut | networkIn => exact before

theorem within_of_own {build : Build} (h : Within s rm) (ended : Ended build s op rm result rm') :
    Within s rm' := by
  intro d l limit
  cases ended with
  | rejected | idle => exact h d l limit
  | booked c n sum outcome demand added within gain loss =>
      rw [usageOf_put_self]
      by_cases same : d = c
      · subst same
        rw [ResourceUsage.get_set_self]
        exact within l limit
      · rw [ResourceUsage.get_set_of_ne _ _ same]
        exact h d l limit
  | freed bytes le none =>
      rw [usageOf_put_self]
      by_cases same : d = .memory
      · subst same
        rw [ResourceUsage.get_set_self]
        exact UInt64.le_trans (UInt64.sub_le le) (h .memory l limit)
      · rw [ResourceUsage.get_set_of_ne _ _ same]
        exact h d l limit

theorem balanced_of_reset {id : String} (h : Balanced id history rm) :
    Balanced id (history ++ [(.resetTick, none)]) rm.resetTick := by
  intro c
  rw [usageOf_resetTick]
  cases c with
  | cpu => rw [span_reset, ResourceUsage.get_set_self]; rfl
  | memory | storage | networkOut | networkIn =>
      rw [ResourceUsage.get_set_of_ne _ _ (by decide)]
      simp only [span, total_concat, total_reset, Nat.add_zero]
      exact h _

theorem within_of_reset (h : Within s rm) : Within s rm.resetTick := by
  intro c l limit
  rw [usageOf_resetTick]
  by_cases same : c = .cpu
  · subst same
    rw [ResourceUsage.get_set_self]
    exact UInt64.zero_le
  · rw [ResourceUsage.get_set_of_ne _ _ same]
    exact h c l limit

end

theorem step_checked_of_fits (shaHex : String → String) (rm : ResourceManager) (a : Action) (fits : Fits rm a) :
    step shaHex .checked rm a = step shaHex .release rm a := by
  cases a with
  | execute s op =>
      refine congrArg (Option.map _) (execute_congr_build fun c n demand => ?_)
      exact (Build.add_of_fits .checked (fits c n demand)).trans
        (Build.add_of_fits .release (fits c n demand)).symm
  | resetTick => rfl

theorem fits_of_step_checked {shaHex : String → String} {rm : ResourceManager} {a : Action}
    (h : (step shaHex .checked rm a).isSome) :
    Fits rm a := by
  cases a with
  | execute s op =>
      intro c n demand
      rw [step, Option.isSome_map, execute_isSome_iff] at h
      obtain ⟨sum, added⟩ := Option.isSome_iff_exists.mp (h c n demand)
      exact Build.fits_of_checked added
  | resetTick => trivial

theorem fits_of_run_checked {shaHex : String → String} {rm : ResourceManager} {actions : List Action}
    (h : (run (step shaHex .checked) rm actions).isSome) : Along (step shaHex .release) Fits rm actions := by
  induction actions generalizing rm with
  | nil => trivial
  | cons a actions ih =>
      obtain ⟨⟨trace, last⟩, ran⟩ := Option.isSome_iff_exists.mp h
      obtain ⟨reply, next, rest, first, others, -⟩ := run_cons ran
      have fits : Fits rm a := fits_of_step_checked (by rw [first]; rfl)
      have same := (step_checked_of_fits shaHex rm a fits).symm.trans first
      exact (along_cons same).mpr ⟨fits, ih (by rw [others]; rfl)⟩

section
variable {shaHex : String → String} {S : Set Sandbox}

/-- The call is one of the sandboxes of the set. -/
def Inside (S : Set Sandbox) : Action → Prop
  | .execute s _ => s ∈ S
  | .resetTick => True

theorem step_accurate (distinct : Set.InjOn Sandbox.id S) {history : History} {rm rm' : ResourceManager}
    {a : Action} {reply : Reply} (h : ∀ t ∈ S, Accurate t history rm) (ok : Fits rm a ∧ Inside S a)
    (taken : step shaHex .release rm a = some (reply, rm')) : ∀ t ∈ S, Accurate t (history ++ [(a, reply)]) rm' := by
  intro t member
  obtain ⟨balanced, within⟩ := accurate_iff.mp (h t member)
  rw [accurate_iff]
  cases a with
  | resetTick =>
      cases taken
      exact ⟨balanced_of_reset balanced, within_of_reset within⟩
  | execute s op =>
      obtain ⟨⟨result, _⟩, executed, taken⟩ := Option.map_eq_some_iff.mp taken
      cases taken
      have ended := execute_ended executed
      by_cases own : t.id = s.id
      · cases distinct member ok.2 own
        exact ⟨balanced_of_own balanced ok.1 ended, within_of_own within ended⟩
      · refine ⟨balanced_of_other balanced own ended, fun c l limit => ?_⟩
        rw [ended.frame own]
        exact within c l limit

theorem accurate_new (s : Sandbox) : Accurate s [] new := by
  rw [accurate_iff]
  refine ⟨fun c => ?_, fun c l limit => ?_⟩
  · rw [usageOf_new]
    cases c <;> rfl
  · rw [usageOf_new]
    cases c <;> exact UInt64.zero_le

theorem run_accurate (distinct : Set.InjOn Sandbox.id S) {actions : List Action} {history : History}
    {rm : ResourceManager} (fits : Along (step shaHex .release) Fits new actions)
    (inside : ∀ a ∈ actions, Inside S a) (ran : run (step shaHex .release) new actions = some (history, rm)) :
    ∀ t ∈ S, Accurate t history rm := by
  have keeps (past : History) (g : ResourceManager) (a : Action) (r : Reply) (next : ResourceManager)
      (h : ∀ t ∈ S, Accurate t past g) (ok : Fits g a ∧ Inside S a)
      (taken : step shaHex .release g a = some (r, next)) : ∀ t ∈ S, Accurate t (past ++ [(a, r)]) next :=
    step_accurate distinct h ok taken
  exact run_invariant keeps (fun t _ => accurate_new t) (along_and_mem fits inside) ran

/-- A sum that wraps around passes every quota and no longer says what was accepted. -/
theorem fits_of_accurate {s : Sandbox} {op : Operation} {history : History} {rm rm' : ResourceManager}
    {result : Except SandboxError ExecOutcome} (before : Accurate s history rm)
    (executed : s.execute shaHex .release op rm = some (result, rm'))
    (after : Accurate s (history ++ [(.execute s op, some result)]) rm') : Fits rm (.execute s op) := by
  intro c n demand
  obtain ⟨balanced, within⟩ := accurate_iff.mp before
  have was := balanced c
  have is := (accurate_iff.mp after).1 c
  by_contra above
  have wrapped : ((rm.usageOf s.id).get c + n).toNat = ((rm.usageOf s.id).get c).toNat + n.toNat - 2 ^ 64 := by
    have small := UInt64.toNat_lt n
    have used := UInt64.toNat_lt ((rm.usageOf s.id).get c)
    rw [UInt64.toNat_add]
    omega
  rw [span_execute, total_concat, total_concat] at is
  cases execute_ended executed with
  | rejected e exceeds =>
      obtain ⟨sum, l, added, limit, exceeded⟩ := exceeds c n demand
      rw [Build.eq_of_add added, UInt64.lt_iff_toNat_lt, wrapped] at exceeded
      have used := UInt64.le_iff_toNat_le.mp (within c l limit)
      have small := UInt64.toNat_lt n
      omega
  | idle outcome none => cases none.symm.trans demand
  | freed bytes le none => cases none.symm.trans demand
  | booked d m sum outcome demanded added _ gain loss =>
      cases demanded.symm.trans demand
      rw [total_ok, total_ok, if_pos rfl, if_pos rfl, gain, if_pos rfl, loss, usageOf_put_self,
        ResourceUsage.get_set_self, Build.eq_of_add added, wrapped] at is
      omega

end

/-- At every point of the run in a release build. -/
def AccurateThroughout (shaHex : String → String) (S : Set Sandbox) (actions : List Action) : Prop :=
  ∀ begun, begun <+: actions → ∃ history rm, run (step shaHex .release) new begun = some (history, rm) ∧
    ∀ s ∈ S, Accurate s history rm

section
variable {shaHex : String → String} {S : Set Sandbox} {actions : List Action}

theorem accurateThroughout_of_fits (distinct : Set.InjOn Sandbox.id S)
    (inside : ∀ a ∈ actions, Inside S a) (fits : Along (step shaHex .release) Fits new actions) :
    AccurateThroughout shaHex S actions := by
  rintro begun ⟨others, rfl⟩
  obtain ⟨⟨history, rm⟩, ran⟩ :=
    Option.isSome_iff_exists.mp (run_isSome (step_release_isSome shaHex) new begun)
  exact ⟨history, rm, ran, run_accurate distinct (along_front fits)
    (fun a member => inside a (List.mem_append_left _ member)) ran⟩

theorem fits_of_accurateThroughout (inside : ∀ a ∈ actions, Inside S a)
    (accurate : AccurateThroughout shaHex S actions) : Along (step shaHex .release) Fits new actions := by
  induction actions using List.reverseRecOn with
  | nil => trivial
  | append_singleton actions a ih =>
      have along := ih (fun b member => inside b (List.mem_append_left _ member))
        fun begun h => accurate begun (h.trans (List.prefix_append _ _))
      obtain ⟨history, rm, ran, before⟩ := accurate actions (List.prefix_append _ _)
      refine along_concat along ran ?_
      cases a with
      | resetTick => trivial
      | execute s op =>
          have member : s ∈ S := inside (.execute s op) (List.mem_append_right _ List.mem_cons_self)
          obtain ⟨whole, last, all, after⟩ := accurate _ (List.prefix_refl _)
          obtain ⟨begun, mid, rest, again, taken, rfl⟩ := run_of_append all
          cases ran.symm.trans again
          obtain ⟨reply, next, tail, taken, done, rfl⟩ := run_cons taken
          cases done
          obtain ⟨⟨result, _⟩, executed, replied⟩ := Option.map_eq_some_iff.mp taken
          cases replied
          exact fits_of_accurate (before s member) executed (after s member)

/-- The release build alone. -/
theorem accurateThroughout_iff (distinct : Set.InjOn Sandbox.id S) (inside : ∀ a ∈ actions, Inside S a) :
    AccurateThroughout shaHex S actions ↔ Along (step shaHex .release) Fits new actions :=
  ⟨fits_of_accurateThroughout inside, accurateThroughout_of_fits distinct inside⟩

end

theorem quotas_exact_iff (shaHex : String → String) (S : Set Sandbox) (distinct : Set.InjOn Sandbox.id S)
    (actions : List Action) (inside : ∀ a ∈ actions, Inside S a) :
    (AccurateThroughout shaHex S actions ∧ (run (step shaHex .checked) new actions).isSome) ↔
      Along (step shaHex .release) Fits new actions := by
  constructor
  · exact fun h => fits_of_run_checked h.2
  · intro fits
    refine ⟨accurateThroughout_of_fits distinct inside fits, ?_⟩
    rw [run_congr (step_checked_of_fits shaHex) fits]
    exact run_isSome (step_release_isSome shaHex) new actions

/-- A sandbox with a small budget. -/
def tenant : Sandbox := ⟨"tenant", ⟨100, 1000, 1000, ⟨[443], []⟩, [], false⟩⟩

theorem tenant_within_quota :
    AccurateThroughout Sha256.hex {tenant} [.execute tenant (.compute 60), .resetTick, .execute tenant (.compute 90),
        .execute tenant (.alloc 700), .execute tenant (.free 200), .execute tenant (.networkOut 5 443)] ∧
      (run (step Sha256.hex .checked) new [.execute tenant (.compute 60), .resetTick, .execute tenant (.compute 90),
        .execute tenant (.alloc 700), .execute tenant (.free 200),
        .execute tenant (.networkOut 5 443)]).isSome := by
  refine (quotas_exact_iff Sha256.hex {tenant} (Set.injOn_singleton _ _) _ ?_).mpr
    (fits_of_run_checked (by decide +kernel))
  simp only [List.forall_mem_cons]
  exact ⟨rfl, trivial, rfl, rfl, rfl, rfl, nofun⟩

/-- After 50 ms a demand of `2 ^ 64 - 10` ms passes the limit of 100 ms: the release build
counts 40 ms, the checked build panics. -/
theorem wrapped_quota :
    ¬ AccurateThroughout Sha256.hex {tenant}
        [.execute tenant (.compute 50), .execute tenant (.compute 18446744073709551606)] ∧
      run (step Sha256.hex .checked) new
        [.execute tenant (.compute 50), .execute tenant (.compute 18446744073709551606)] = none := by
  have counted : (run (step Sha256.hex .release) new
      [.execute tenant (.compute 50), .execute tenant (.compute 18446744073709551606)]).map
        (fun (history, rm) => (history, rm.usageOf tenant.id)) =
      some ([(.execute tenant (.compute 50), some (.ok (.computed 50))),
        (.execute tenant (.compute 18446744073709551606), some (.ok (.computed 18446744073709551606)))],
        { cpuMsUsed := 40 }) := by
    decide +kernel
  have panics : (run (step Sha256.hex .checked) new
      [.execute tenant (.compute 50), .execute tenant (.compute 18446744073709551606)]).isNone := by
    decide +kernel
  refine ⟨fun accurate => ?_, Option.isNone_iff_eq_none.mp panics⟩
  obtain ⟨history, rm, ran, each⟩ := accurate _ (List.prefix_refl _)
  rw [ran, Option.map_some, Option.some_inj, Prod.mk_inj] at counted
  obtain ⟨rfl, used⟩ := counted
  have sums := (each tenant rfl).cpu
  rw [used] at sums
  exact absurd sums (by decide)

end KaiOs.Runtime
