import Mathlib.Data.List.Basic
import Mathlib.Data.Set.Function

/-! Recovery from an append-only log with checkpoint markers and one snapshot that
is stored apart from it. A marker records the root of the state it was written in.
Recovery starts from the snapshot where its root is the last marker's root, and
from the initial state otherwise. -/
namespace MarkerLog

inductive Entry (τ ρ : Type*) where
  | tx (t : τ)
  | marker (r : ρ)

variable {σ τ ρ : Type*}

/-- The transactions of a log, applied in order. -/
def replay (step : σ → τ → σ) : σ → List (Entry τ ρ) → σ
  | s, [] => s
  | s, .tx t :: log => replay step (step s t) log
  | s, .marker _ :: log => replay step s log

/-- The root in the last marker and the entries behind it. -/
def lastMarker : List (Entry τ ρ) → Option (ρ × List (Entry τ ρ))
  | [] => none
  | .tx _ :: log => lastMarker log
  | .marker r :: log => (lastMarker log).or (some (r, log))

/-- The purpose of the protocol: what a restart makes of the log and the snapshot. -/
def recover [DecidableEq ρ] (step : σ → τ → σ) (root : σ → ρ) (s₀ : σ) (log : List (Entry τ ρ))
    (snapshot : Option σ) : σ :=
  match lastMarker log, snapshot with
  | some (r, after), some s => if root s = r then replay step s after else replay step s₀ log
  | _, _ => replay step s₀ log

/-- The states a log goes through. -/
def states (step : σ → τ → σ) (s₀ : σ) (log : List (Entry τ ρ)) : Set σ :=
  {s | ∃ before after, log = before ++ after ∧ s = replay step s₀ before}

theorem replay_append (step : σ → τ → σ) (s : σ) (log more : List (Entry τ ρ)) :
    replay step s (log ++ more) = replay step (replay step s log) more := by
  induction log generalizing s with
  | nil => rfl
  | cons e log ih => cases e <;> exact ih _

@[simp] theorem replay_marker (step : σ → τ → σ) (s : σ) (log : List (Entry τ ρ)) (r : ρ) :
    replay step s (log ++ [.marker r]) = replay step s log := replay_append step s log [.marker r]

theorem lastMarker_some {log after : List (Entry τ ρ)} {r : ρ} (h : lastMarker log = some (r, after)) :
    ∃ before, log = before ++ .marker r :: after := by
  induction log with
  | nil => cases h
  | cons e log ih =>
      cases e with
      | tx t =>
          obtain ⟨before, same⟩ := ih h
          exact ⟨.tx t :: before, by rw [same, List.cons_append]⟩
      | marker r' =>
          cases found : lastMarker log with
          | none =>
              simp only [lastMarker, found, Option.none_or, Option.some.injEq, Prod.mk.injEq] at h
              exact ⟨[], by rw [h.1, h.2, List.nil_append]⟩
          | some later =>
              rw [lastMarker, found, Option.some_or] at h
              obtain ⟨before, same⟩ := ih (found.trans h)
              exact ⟨.marker r' :: before, by rw [same, List.cons_append]⟩

theorem lastMarker_append (before after : List (Entry τ ρ)) (r : ρ)
    (clear : lastMarker after = none) :
    lastMarker (before ++ .marker r :: after) = some (r, after) := by
  induction before with
  | nil => rw [List.nil_append, lastMarker, clear, Option.none_or]
  | cons e before ih =>
      cases e with
      | tx t => exact ih
      | marker r' => rw [List.cons_append, lastMarker, ih, Option.some_or]

section Protocol
variable (step : σ → τ → σ) (root : σ → ρ) (s₀ : σ)

/-- What every run of the protocol keeps: a marker carries the root of the state it
was written in, and a readable snapshot is a state the log went through. -/
structure Consistent (log : List (Entry τ ρ)) (snapshot : Option σ) : Prop where
  markers : ∀ before r after, log = before ++ .marker r :: after → r = root (replay step s₀ before)
  stored : ∀ s ∈ snapshot, s ∈ states step s₀ log

variable {step root s₀}

theorem states_append {log : List (Entry τ ρ)} (more : List (Entry τ ρ)) {s : σ}
    (h : s ∈ states step s₀ log) : s ∈ states step s₀ (log ++ more) := by
  obtain ⟨before, after, rfl, same⟩ := h
  exact ⟨before, after ++ more, List.append_assoc _ _ _, same⟩

theorem replay_mem_states (log : List (Entry τ ρ)) : replay step s₀ log ∈ states step s₀ log :=
  ⟨log, [], (List.append_nil log).symm, rfl⟩

theorem states_nil : states step s₀ ([] : List (Entry τ ρ)) = {s₀} := by
  ext s
  constructor
  · rintro ⟨before, after, same, rfl⟩
    rw [(List.append_eq_nil_iff.mp same.symm).1]
    rfl
  · rintro rfl
    exact replay_mem_states []

theorem states_cons (e : Entry τ ρ) (log : List (Entry τ ρ)) :
    states step s₀ (e :: log) = insert s₀ (states step (replay step s₀ [e]) log) := by
  ext s
  constructor
  · rintro ⟨before, after, same, rfl⟩
    cases before with
    | nil => exact .inl rfl
    | cons e' before =>
        cases same
        exact .inr ⟨before, after, rfl, replay_append step s₀ [e] before⟩
  · rintro (rfl | ⟨before, after, rfl, rfl⟩)
    · exact ⟨[], e :: log, rfl, rfl⟩
    · exact ⟨e :: before, after, rfl, (replay_append step s₀ [e] before).symm⟩

theorem Consistent.nil : Consistent step root s₀ [] none where
  markers before r after same := by cases before <;> cases same
  stored := by simp

private theorem split_concat {log before after : List (Entry τ ρ)} {e : Entry τ ρ} {r : ρ}
    (same : log ++ [e] = before ++ .marker r :: after) :
    (after = [] ∧ e = .marker r ∧ before = log) ∨ ∃ rest, log = before ++ .marker r :: rest := by
  rcases List.eq_nil_or_concat after with rfl | ⟨rest, last, rfl⟩
  · obtain ⟨front, back⟩ := List.append_inj' same rfl
    exact .inl ⟨rfl, (List.cons.inj back).1, front.symm⟩
  · refine .inr ⟨rest, ?_⟩
    have shifted : log ++ [e] = (before ++ .marker r :: rest) ++ [last] := by simpa using same
    exact (List.append_inj' shifted rfl).1

theorem Consistent.tx {log : List (Entry τ ρ)} {snapshot : Option σ}
    (h : Consistent step root s₀ log snapshot) (t : τ) :
    Consistent step root s₀ (log ++ [.tx t]) snapshot where
  markers before r after same := by
    rcases split_concat same with ⟨_, absurd, _⟩ | ⟨rest, earlier⟩
    · cases absurd
    · exact h.markers before r rest earlier
  stored s member := states_append _ (h.stored s member)

theorem Consistent.marker {log : List (Entry τ ρ)} {snapshot : Option σ}
    (h : Consistent step root s₀ log snapshot) :
    Consistent step root s₀ (log ++ [.marker (root (replay step s₀ log))]) snapshot where
  markers before r after same := by
    rcases split_concat same with ⟨_, here, rfl⟩ | ⟨rest, earlier⟩
    · cases here
      rfl
    · exact h.markers before r rest earlier
  stored s member := states_append _ (h.stored s member)

/-- The snapshot may be replaced by the current state, or lost. -/
theorem Consistent.store {log : List (Entry τ ρ)} {snapshot : Option σ}
    (h : Consistent step root s₀ log snapshot) {next : Option σ}
    (current : ∀ s ∈ next, s = replay step s₀ log) : Consistent step root s₀ log next where
  markers := h.markers
  stored s member := current s member ▸ replay_mem_states log

end Protocol

section Recovery
variable [DecidableEq ρ] (step : σ → τ → σ) (root : σ → ρ) (s₀ : σ)

theorem recover_none (log : List (Entry τ ρ)) :
    recover step root s₀ log none = replay step s₀ log := by
  unfold recover
  cases lastMarker log <;> rfl

theorem recover_unmarked {log : List (Entry τ ρ)} (clear : lastMarker log = none)
    (snapshot : Option σ) : recover step root s₀ log snapshot = replay step s₀ log := by
  simp only [recover, clear]

/-- A snapshot that matches the last marker is the base of recovery. -/
theorem recover_hit (before : List (Entry τ ρ)) {after : List (Entry τ ρ)} {s : σ}
    (clear : lastMarker after = none) :
    recover step root s₀ (before ++ .marker (root s) :: after) (some s) = replay step s after := by
  simp only [recover, lastMarker_append before after _ clear, ↓reduceIte]

/-- A snapshot that does not match the last marker is not used. -/
theorem recover_miss {log after : List (Entry τ ρ)} {r : ρ} {s : σ}
    (last : lastMarker log = some (r, after)) (other : root s ≠ r) :
    recover step root s₀ log (some s) = replay step s₀ log := by
  simp only [recover, last, if_neg other]

variable {step root s₀}

/-- Both recovery paths rebuild the logged state, if roots tell the states apart. -/
theorem Consistent.recover_eq {log : List (Entry τ ρ)} {snapshot : Option σ}
    (h : Consistent step root s₀ log snapshot) (inj : Set.InjOn root (states step s₀ log)) :
    recover step root s₀ log snapshot = replay step s₀ log := by
  cases snapshot with
  | none => exact recover_none step root s₀ log
  | some s =>
      cases last : lastMarker log with
      | none => simp only [recover, last]
      | some found =>
          obtain ⟨r, after⟩ := found
          by_cases hit : root s = r
          · obtain ⟨before, same⟩ := lastMarker_some last
            have marked := h.markers before r after same
            have at_marker : replay step s₀ before ∈ states step s₀ log :=
              ⟨before, .marker r :: after, same, rfl⟩
            have base : s = replay step s₀ before :=
              inj (h.stored s rfl) at_marker (hit.trans marked)
            simp only [recover, last, if_pos hit]
            rw [same, replay_append, base]
            rfl
          · exact recover_miss step root s₀ last hit

end Recovery
end MarkerLog
