import KaiOs.Lib.Runs
import Mathlib.Data.List.Basic
import Mathlib.Data.List.Induction

/-! Runs of a partial step function that also answers. A run gives the list of its calls with
their answers. Calls whose steps another party cannot see may be taken out of a run. -/
namespace Traces
variable {γ α ρ : Type*} (step : γ → α → Option (ρ × γ))

def run (g : γ) : List α → Option (List (α × ρ) × γ)
  | [] => some ([], g)
  | a :: as => (step g a).bind fun (r, next) =>
      (run next as).map fun (trace, last) => ((a, r) :: trace, last)

/-- Every call meets the condition in the state it is made in. -/
def Along (ok : γ → α → Prop) : γ → List α → Prop := Runs.Along (fun g a => (step g a).map Prod.snd) ok

variable {step}

theorem run_cons {g last : γ} {a : α} {as : List α} {trace : List (α × ρ)}
    (h : run step g (a :: as) = some (trace, last)) :
    ∃ r next rest, step g a = some (r, next) ∧ run step next as = some (rest, last) ∧
      trace = (a, r) :: rest := by
  obtain ⟨⟨r, next⟩, first, h⟩ := Option.bind_eq_some_iff.mp h
  obtain ⟨⟨rest, last⟩, others, h⟩ := Option.map_eq_some_iff.mp h
  cases h
  exact ⟨r, next, rest, first, others, rfl⟩

theorem run_of_step {g next : γ} {a : α} {r : ρ} (first : step g a = some (r, next)) (as : List α) :
    run step g (a :: as) = (run step next as).map fun (trace, last) => ((a, r) :: trace, last) := by
  rw [run, first, Option.bind_some]

theorem run_calls {g last : γ} {as : List α} {trace : List (α × ρ)}
    (h : run step g as = some (trace, last)) : trace.map Prod.fst = as := by
  induction as generalizing g trace with
  | nil =>
      cases h
      rfl
  | cons a as ih =>
      obtain ⟨r, next, rest, -, others, rfl⟩ := run_cons h
      rw [List.map_cons, ih others]

theorem run_of_append {g last : γ} {as bs : List α} {trace : List (α × ρ)}
    (h : run step g (as ++ bs) = some (trace, last)) :
    ∃ begun next rest, run step g as = some (begun, next) ∧ run step next bs = some (rest, last) ∧
      trace = begun ++ rest := by
  induction as generalizing g trace with
  | nil => exact ⟨[], g, trace, rfl, h, rfl⟩
  | cons a as ih =>
      obtain ⟨r, mid, tail, taken, more, rfl⟩ := run_cons h
      obtain ⟨begun, next, rest, first, others, rfl⟩ := ih more
      refine ⟨(a, r) :: begun, next, rest, ?_, others, rfl⟩
      rw [run_of_step taken, first]
      rfl

theorem run_cut {g last : γ} {as : List α} {begun rest : List (α × ρ)}
    (h : run step g as = some (begun ++ rest, last)) :
    ∃ mid, run step g (begun.map Prod.fst) = some (begun, mid) ∧
      run step mid (rest.map Prod.fst) = some (rest, last) := by
  have calls := run_calls h
  rw [List.map_append] at calls
  subst calls
  obtain ⟨begun', mid, rest', first, others, same⟩ := run_of_append h
  have lengths := congrArg List.length (run_calls first)
  rw [List.length_map, List.length_map] at lengths
  obtain ⟨rfl, rfl⟩ := List.append_inj same lengths.symm
  exact ⟨mid, first, others⟩

theorem run_split {g last : γ} {as : List α} {begun rest : List (α × ρ)} {a : α} {r : ρ}
    (h : run step g as = some (begun ++ (a, r) :: rest, last)) :
    ∃ mid next, run step g (begun.map Prod.fst) = some (begun, mid) ∧ step mid a = some (r, next) ∧
      ∃ others, run step next others = some (rest, last) := by
  obtain ⟨mid, first, others⟩ := run_cut h
  obtain ⟨r', next, rest', taken, later, same⟩ := run_cons others
  obtain ⟨head, rfl⟩ := List.cons.inj same
  cases head
  exact ⟨mid, next, first, taken, _, later⟩

theorem run_isSome (total : ∀ g a, (step g a).isSome) (g : γ) (as : List α) :
    (run step g as).isSome := by
  induction as generalizing g with
  | nil => rfl
  | cons a as ih =>
      obtain ⟨⟨r, next⟩, first⟩ := Option.isSome_iff_exists.mp (total g a)
      rw [run_of_step first, Option.isSome_map]
      exact ih next

theorem along_cons {ok : γ → α → Prop} {g next : γ} {a : α} {r : ρ} {as : List α}
    (first : step g a = some (r, next)) : Along step ok g (a :: as) ↔ ok g a ∧ Along step ok next as := by
  have taken : (step g a).map Prod.snd = some next := by rw [first, Option.map_some]
  exact ⟨fun along => ⟨along.1, along.2 next taken⟩,
    fun along => Runs.along_of_step taken along.1 along.2⟩

theorem along_of_forall {ok : γ → α → Prop} (always : ∀ g a, ok g a) {g : γ} {as : List α} :
    Along step ok g as := by
  induction as generalizing g with
  | nil => trivial
  | cons a as ih => exact ⟨always g a, fun _ _ => ih⟩

theorem along_front {ok : γ → α → Prop} {g : γ} {as bs : List α} (along : Along step ok g (as ++ bs)) :
    Along step ok g as := by
  induction as generalizing g with
  | nil => trivial
  | cons a as ih => exact ⟨along.1, fun next taken => ih (along.2 next taken)⟩

theorem along_concat {ok : γ → α → Prop} {g last : γ} {as : List α} {a : α} {trace : List (α × ρ)}
    (along : Along step ok g as) (h : run step g as = some (trace, last)) (meets : ok last a) :
    Along step ok g (as ++ [a]) := by
  induction as generalizing g trace with
  | nil =>
      cases h
      exact ⟨meets, fun _ _ => trivial⟩
  | cons b as ih =>
      obtain ⟨r, next, rest, first, others, rfl⟩ := run_cons h
      obtain ⟨ok_first, along⟩ := (along_cons first).mp along
      exact (along_cons first).mpr ⟨ok_first, ih along others⟩

theorem along_and_mem {ok : γ → α → Prop} {inside : α → Prop} {g : γ} {as : List α}
    (along : Along step ok g as) (all : ∀ a ∈ as, inside a) :
    Along step (fun g a => ok g a ∧ inside a) g as := by
  induction as generalizing g with
  | nil => trivial
  | cons a as ih =>
      exact ⟨⟨along.1, all a List.mem_cons_self⟩, fun next taken =>
        ih (along.2 next taken) fun b member => all b (List.mem_cons_of_mem _ member)⟩

/-- What holds of the answers so far and the state, and is kept by every step that meets the
condition, holds along such runs. -/
theorem run_invariant {ok : γ → α → Prop} {inv : List (α × ρ) → γ → Prop}
    (keeps : ∀ past g a r next, inv past g → ok g a → step g a = some (r, next) →
      inv (past ++ [(a, r)]) next) {past trace : List (α × ρ)} {g last : γ} {as : List α}
    (start : inv past g) (along : Along step ok g as) (h : run step g as = some (trace, last)) :
    inv (past ++ trace) last := by
  induction as generalizing past g trace with
  | nil =>
      cases h
      rwa [List.append_nil]
  | cons a as ih =>
      obtain ⟨r, next, rest, first, others, rfl⟩ := run_cons h
      obtain ⟨meets, along⟩ := (along_cons first).mp along
      rw [List.append_cons]
      exact ih (keeps past g a r next start meets first) along others

theorem run_keeps {inv : List (α × ρ) → γ → Prop}
    (keeps : ∀ past g a r next, inv past g → step g a = some (r, next) → inv (past ++ [(a, r)]) next)
    {past trace : List (α × ρ)} {g last : γ} {as : List α} (start : inv past g)
    (h : run step g as = some (trace, last)) : inv (past ++ trace) last := by
  have anywhere : Along step (fun _ _ => True) g as := along_of_forall fun _ _ => trivial
  refine run_invariant (fun past g a r next held _ taken => ?_) start anywhere h
  exact keeps past g a r next held taken

theorem run_keeps_state {inv : γ → Prop}
    (keeps : ∀ g a r next, inv g → step g a = some (r, next) → inv next) {trace : List (α × ρ)} {g last : γ}
    {as : List α} (start : inv g) (h : run step g as = some (trace, last)) : inv last := by
  induction as generalizing g trace with
  | nil =>
      cases h
      exact start
  | cons a as ih =>
      obtain ⟨r, next, rest, first, others, -⟩ := run_cons h
      exact ih (keeps g a r next start first) others

/-- A run of the given calls exists when what holds so far always leads on to the next of them. -/
theorem run_progress {inv : List (α × ρ) → γ → Prop} {calls : List α}
    (leads : ∀ past g a rest, past.map Prod.fst ++ a :: rest = calls → inv past g →
      ∃ r next, step g a = some (r, next) ∧ inv (past ++ [(a, r)]) next)
    {past : List (α × ρ)} {g : γ} {as : List α} (split : past.map Prod.fst ++ as = calls) (start : inv past g) :
    ∃ trace last, run step g as = some (trace, last) ∧ inv (past ++ trace) last := by
  induction as generalizing past g with
  | nil => exact ⟨[], g, rfl, by rwa [List.append_nil]⟩
  | cons a as ih =>
      obtain ⟨r, next, first, held⟩ := leads past g a as split start
      have split' : (past ++ [(a, r)]).map Prod.fst ++ as = calls := by
        rw [List.map_append, List.append_assoc, ← split]
        rfl
      obtain ⟨trace, last, others, ends⟩ := ih split' held
      refine ⟨(a, r) :: trace, last, ?_, ?_⟩
      · rw [run_of_step first, others]
        rfl
      · rwa [List.append_cons]

/-- A condition that tells, where the invariant holds, whether a call is good, tells it along whole runs: the calls
in front of the first bad one meet it and keep the invariant. -/
theorem run_iff {inv : List (α × ρ) → γ → Prop} {good ok : List (α × ρ) → γ → α → Prop} {g : γ} (start : inv [] g)
    (tells : ∀ past g a, inv past g → (good past g a ↔ ok past g a))
    (keeps : ∀ past g a r next, inv past g → ok past g a → step g a = some (r, next) → inv (past ++ [(a, r)]) next)
    (as : List α) :
    (∀ front a past mid, front ++ [a] <+: as → run step g front = some (past, mid) → good past mid a) ↔
      ∀ front a past mid, front ++ [a] <+: as → run step g front = some (past, mid) → ok past mid a := by
  have reaches (meets : ∀ front a past mid, front ++ [a] <+: as → run step g front = some (past, mid) →
      inv past mid → ok past mid a) (front : List α) (past : List (α × ρ)) (mid : γ) (begun : front <+: as)
      (ran : run step g front = some (past, mid)) : inv past mid := by
    induction front using List.reverseRecOn generalizing past mid with
    | nil =>
        cases ran
        exact start
    | append_singleton front a ih =>
        obtain ⟨earlier, before, rest, first, last, rfl⟩ := run_of_append ran
        have held := ih earlier before ((List.prefix_append front [a]).trans begun) first
        obtain ⟨r, next, others, taken, done, rfl⟩ := run_cons last
        cases done
        exact keeps earlier before a r _ held (meets front a earlier before begun first held) taken
  constructor
  · intro good front a past mid begun ran
    have told (front : List α) (a : α) (past : List (α × ρ)) (mid : γ) (begun : front ++ [a] <+: as)
        (ran : run step g front = some (past, mid)) (held : inv past mid) : ok past mid a :=
      (tells past mid a held).mp (good front a past mid begun ran)
    have held := reaches told front past mid ((List.prefix_append front [a]).trans begun) ran
    exact (tells past mid a held).mp (good front a past mid begun ran)
  · intro meets front a past mid begun ran
    have held := reaches (fun front a past mid begun ran _ => meets front a past mid begun ran)
      front past mid ((List.prefix_append front [a]).trans begun) ran
    exact (tells past mid a held).mpr (meets front a past mid begun ran)

theorem run_congr {step' : γ → α → Option (ρ × γ)} {ok : γ → α → Prop}
    (agree : ∀ g a, ok g a → step' g a = step g a) {g : γ} {as : List α} (along : Along step ok g as) :
    run step' g as = run step g as := by
  induction as generalizing g with
  | nil => rfl
  | cons a as ih =>
      rw [run, run, agree g a along.1]
      apply Option.bind_congr
      intro (r, next) taken
      simp only [ih ((along_cons taken).mp along).2]

/-- Taking the steps that satisfy `hidden` out of a run: each of them must keep the relation to
a state that does not take it, every other step must be matched by one that looks the same. -/
theorem purge {ο : Type*} {seen : α × ρ → ο} {sim : γ → γ → Prop} (hidden : α × ρ → Bool)
    (stays : ∀ g h a r next, sim g h → step g a = some (r, next) → hidden (a, r) = true → sim next h)
    (matched : ∀ g h a r next, sim g h → step g a = some (r, next) → hidden (a, r) = false →
      ∃ r' next', step h a = some (r', next') ∧ seen (a, r') = seen (a, r) ∧ sim next next')
    {g h last : γ} {as : List α} {trace : List (α × ρ)} (start : sim g h)
    (ran : run step g as = some (trace, last)) :
    ∃ trace' last', run step h ((trace.filter (! hidden ·)).map Prod.fst) = some (trace', last') ∧
      trace'.map seen = (trace.filter (! hidden ·)).map seen ∧
      sim last last' := by
  induction as generalizing g h trace with
  | nil =>
      cases ran
      exact ⟨[], h, rfl, rfl, start⟩
  | cons a as ih =>
      obtain ⟨r, next, rest, first, others, rfl⟩ := run_cons ran
      cases out : hidden (a, r) with
      | true =>
          obtain ⟨trace', last', again, same, agree⟩ := ih (stays g h a r next start first out) others
          refine ⟨trace', last', ?_, ?_, agree⟩
          · simpa only [List.filter_cons, out, Bool.not_true, Bool.false_eq_true, if_false] using again
          · simpa only [List.filter_cons, out, Bool.not_true, Bool.false_eq_true, if_false] using same
      | false =>
          obtain ⟨r', next', taken, alike, agree⟩ := matched g h a r next start first out
          obtain ⟨trace', last', again, same, agree⟩ := ih agree others
          refine ⟨(a, r') :: trace', last', ?_, ?_, agree⟩
          · rw [List.filter_cons, out, Bool.not_false, if_pos rfl, List.map_cons, run_of_step taken, again]
            rfl
          · rw [List.filter_cons, out, Bool.not_false, if_pos rfl, List.map_cons, List.map_cons, same, alike]

/-- What is seen of a run is a run of another party, if what is seen of a step is a step of it. -/
theorem run_view {γ' α' ρ' : Type*} {step' : γ' → α' → Option (ρ' × γ')} {state : γ → γ'} {call : α → α'}
    {reply : ρ → ρ'}
    (viewed : ∀ g a r next, step g a = some (r, next) → step' (state g) (call a) = some (reply r, state next))
    {g last : γ} {as : List α} {trace : List (α × ρ)} (ran : run step g as = some (trace, last)) :
    run step' (state g) (as.map call) = some (trace.map (Prod.map call reply), state last) := by
  induction as generalizing g trace with
  | nil =>
      cases ran
      rfl
  | cons a as ih =>
      obtain ⟨r, next, rest, first, others, rfl⟩ := run_cons ran
      rw [List.map_cons, run_of_step (viewed g a r next first), ih others]
      rfl

end Traces
