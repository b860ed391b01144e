import Mathlib.Order.Defs.Unbundled

/-! Runs of a partial step function. A run is given by its actions; a condition may be asked
of every step, in the state in which it is taken. -/
namespace Runs
variable {σ α : Type*} (step : σ → α → Option σ)

/-- The state behind a list of actions; none if one of them cannot be taken. -/
def run (s : σ) : List α → Option σ
  | [] => some s
  | a :: as => (step s a).bind fun s' => run s' as

/-- Every action meets the condition in the state it is taken in. -/
def Along (ok : σ → α → Prop) (s : σ) : List α → Prop
  | [] => True
  | a :: as => ok s a ∧ ∀ s', step s a = some s' → Along ok s' as

variable {step}

theorem run_cons {s s' : σ} {a : α} {as : List α} (h : run step s (a :: as) = some s') :
    ∃ next, step s a = some next ∧ run step next as = some s' :=
  Option.bind_eq_some_iff.mp h

theorem run_of_step {s s' : σ} {a : α} (first : step s a = some s') (as : List α) :
    run step s (a :: as) = run step s' as := by
  rw [run, first, Option.bind_some]

theorem along_of_step {ok : σ → α → Prop} {s s' : σ} {a : α} {as : List α} (first : step s a = some s')
    (meets : ok s a) (rest : Along step ok s' as) : Along step ok s (a :: as) := by
  refine ⟨meets, fun t taken => ?_⟩
  cases first.symm.trans taken
  exact rest

theorem along_of_forall {ok : α → Prop} {as : List α} (all : ∀ a ∈ as, ok a) (s : σ) :
    Along step (fun _ a => ok a) s as := by
  induction as generalizing s with
  | nil => trivial
  | cons a as ih => exact ⟨all a (.head _), fun next _ => ih (fun b member => all b (.tail _ member)) next⟩

/-- What every step that meets the condition preserves holds at the end of such a run. -/
theorem run_invariant {ok : σ → α → Prop} {inv : σ → Prop}
    (keeps : ∀ s a s', inv s → ok s a → step s a = some s' → inv s') {s s' : σ} {as : List α}
    (start : inv s) (along : Along step ok s as) (h : run step s as = some s') : inv s' := by
  induction as generalizing s with
  | nil =>
      cases h
      exact start
  | cons a as ih =>
      obtain ⟨next, first, rest⟩ := run_cons h
      exact ih (keeps s a next start along.1 first) (along.2 next first) rest

/-- A relation that every step keeps, between the ends of a run. -/
theorem run_rel {r : σ → σ → Prop} (refl : ∀ s, r s s) (trans : ∀ s t u, r s t → r t u → r s u)
    (keeps : ∀ s a s', step s a = some s' → r s s') {s s' : σ} {as : List α}
    (h : run step s as = some s') : r s s' := by
  induction as generalizing s with
  | nil =>
      cases h
      exact refl _
  | cons a as ih =>
      obtain ⟨next, first, rest⟩ := run_cons h
      exact trans s next s' (keeps s a next first) (ih rest)

/-- What an abstract state goes through beside a run, if every step keeps the two together. -/
theorem run_simulates {τ : Type*} {effect : τ → α → τ} {r : σ → τ → Prop}
    (keeps : ∀ s t a s', r s t → step s a = some s' → r s' (effect t a)) {s s' : σ} {t : τ} {as : List α}
    (start : r s t) (h : run step s as = some s') : r s' (as.foldl effect t) := by
  induction as generalizing s t with
  | nil =>
      cases h
      exact start
  | cons a as ih =>
      obtain ⟨next, first, rest⟩ := run_cons h
      exact ih (keeps s t a next start first) rest

/-- The condition may be exchanged along a run whose end is known. -/
theorem Along.imp_of_run {ok ok' : σ → α → Prop} {s s' : σ} {as : List α}
    (along : Along step ok s as) (h : run step s as = some s')
    (weaker : ∀ t a bs, run step t (a :: bs) = some s' → ok t a → ok' t a) : Along step ok' s as := by
  induction as generalizing s with
  | nil => trivial
  | cons a as ih =>
      obtain ⟨next, first, rest⟩ := run_cons h
      refine ⟨weaker s a as h along.1, fun t taken => ?_⟩
      cases first.symm.trans taken
      exact ih (along.2 next first) rest

end Runs
