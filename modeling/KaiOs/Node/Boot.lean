import KaiOs.Node.Lifecycle

/-! `start_all` as a whole: which subsystems it starts, and which ones it stops again when one of them
does not start. -/
namespace KaiOs.Node
open Visits

def call : Event → Option (ℕ × Method × Bool)
  | .called index method ok => some (index, method, ok)
  | .slept _ | .recorded _ _ => none

/-- The calls of all subsystems in order, each with the index and whether it succeeded. -/
def calls (events : List Event) : List (ℕ × Method × Bool) := events.filterMap call

theorem calls_append (events more : List Event) : calls (events ++ more) = calls events ++ calls more :=
  List.filterMap_append

@[simp] theorem calls_called (index : ℕ) (method : Method) (ok : Bool) (events : List Event) :
    calls (.called index method ok :: events) = (index, method, ok) :: calls events := rfl

@[simp] theorem calls_recorded (kind detail : String) (events : List Event) :
    calls (.recorded kind detail :: events) = calls events := rfl

theorem overall_eq_unhealthy (statuses : List HealthStatus) :
    overall statuses = .unhealthy ↔ .unhealthy ∈ statuses := by
  have worst_eq (a b : HealthStatus) : a.worst b = .unhealthy ↔ a = .unhealthy ∨ b = .unhealthy := by
    cases a <;> cases b <;> decide
  have from_any (start : HealthStatus) : statuses.foldl HealthStatus.worst start = .unhealthy ↔
      start = .unhealthy ∨ .unhealthy ∈ statuses := by
    induction statuses generalizing start with
    | nil => simp
    | cons first statuses ih => rw [List.foldl_cons, ih, worst_eq, List.mem_cons, or_assoc, eq_comm (a := first)]
  rw [overall, from_any, or_iff_right (by decide)]

namespace Supervisor
variable {σ : Type} [Subsystem σ]

/-- The running entries with their indices. -/
def up (index : ℕ) (es : List (Entry σ)) : List (Entry σ × ℕ) := (es.zipIdx index).filter (·.1.running)

def stopCall (p : Entry σ × ℕ) : ℕ × Method × Bool := (p.2, .stop, (Subsystem.stop p.1.subsystem).1.isOk)

/-- The stops of the running entries, from the last one back to the first. -/
def stopsBack (index : ℕ) (es : List (Entry σ)) : List (ℕ × Method × Bool) :=
  ((up index es).map stopCall).reverse

omit [Subsystem σ] in
theorem up_cons (index : ℕ) (e : Entry σ) (es : List (Entry σ)) :
    up index (e :: es) = if e.running then (e, index) :: up (index + 1) es else up (index + 1) es := by
  rw [up, List.zipIdx_cons, List.filter_cons, ← up]

omit [Subsystem σ] in
theorem up_eq_nil {index : ℕ} {es : List (Entry σ)} : up index es = [] ↔ ∀ e ∈ es, e.running = false := by
  induction es generalizing index with
  | nil => exact iff_of_true rfl (by simp)
  | cons e es ih => cases up_now : e.running <;> simp [up_cons, up_now, ih]

theorem stopEntry_running (index : ℕ) (e : Entry σ) : (stopEntry index e).1.running = false := by
  rw [stopEntry]
  split
  · rfl
  · next out => exact (Bool.not_eq_true _).mp out

theorem stopEntry_lastHealth (index : ℕ) (e : Entry σ) : (stopEntry index e).1.lastHealth = e.lastHealth := by
  rw [stopEntry]
  split <;> rfl

theorem calls_stopBack (index : ℕ) (es : List (Entry σ)) :
    calls (visitBack stopEntry index es).2 = stopsBack index es := by
  induction es generalizing index with
  | nil => rfl
  | cons e es ih =>
      rw [visitBack, calls_append, ih, stopsBack, stopsBack, up_cons, stopEntry]
      cases e.running with
      | true => exact List.reverse_cons.symm
      | false => exact List.append_nil _

theorem stopBack_forall (index : ℕ) (es : List (Entry σ)) :
    (∀ e ∈ (visitBack stopEntry index es).1, e.running = false) ∧
      (visitBack stopEntry index es).1.map (·.lastHealth) = es.map (·.lastHealth) := by
  induction es generalizing index with
  | nil => exact ⟨by simp [visitBack], rfl⟩
  | cons e es ih =>
      obtain ⟨out, healths⟩ := ih (index + 1)
      rw [visitBack]
      refine ⟨List.forall_mem_cons.mpr ⟨stopEntry_running index e, out⟩, ?_⟩
      rw [List.map_cons, List.map_cons, stopEntry_lastHealth, healths]

/-- The calls of a loop in which every subsystem starts. -/
def startsFrom (index n : ℕ) : List (ℕ × Method × Bool) := (List.range' index n).map fun i => (i, .start, true)

theorem startFrom_calls {index : ℕ} {es started : List (Entry σ)} {events : List Event}
    (h : startFrom index es = (.ok (), started, events)) : calls events = startsFrom index es.length := by
  induction es generalizing index started events with
  | nil =>
      cases h
      rfl
  | cons e es ih =>
      rcases startFrom_cases h with ⟨_, _, broken, _⟩ | ⟨-, rest, later, goes, -, rfl⟩
      · cases broken
      · rw [calls_called, calls_recorded, ih goes]
        rfl

/-- What an entry is behind its failed start. -/
def failedEntry (e : Entry σ) : Entry σ :=
  { e with subsystem := (Subsystem.start e.subsystem).2, lastHealth := .unhealthy }

/-- A loop that breaks off does so at the first subsystem that does not start. -/
theorem startFrom_error {index : ℕ} {es started : List (Entry σ)} {err : SubsystemError} {events : List Event}
    (h : startFrom index es = (.error err, started, events)) :
    ∃ front failing behind, es = front ++ failing :: behind ∧
      (∀ e ∈ front, (Subsystem.start e.subsystem).1.isOk = true) ∧
      (Subsystem.start failing.subsystem).1 = .error err ∧
      started = front.map startedEntry ++ failedEntry failing :: behind ∧
      calls events = startsFrom index front.length ++ [(index + front.length, .start, false)] := by
  induction es generalizing index started events with
  | nil => cases h
  | cons e es ih =>
      rcases startFrom_cases h with ⟨err', failed, broken, rfl, rfl⟩ | ⟨start, rest, later, goes, rfl, rfl⟩
      · cases broken
        exact ⟨[], e, es, rfl, by simp, failed, rfl, rfl⟩
      · obtain ⟨front, failing, behind, rfl, fine, failed, same, made⟩ := ih goes
        refine ⟨e :: front, failing, behind, rfl, ?_, failed, ?_, ?_⟩
        · exact List.forall_mem_cons.mpr ⟨by rw [start]; rfl, fine⟩
        · rw [same, List.map_cons, List.cons_append]
        · rw [calls_called, calls_recorded, made, Nat.add_right_comm]
          rfl

/-- The stops that take back the starts of the given subsystems, the last one first. -/
def takesBack (subsystems : List σ) : List (ℕ × Method × Bool) :=
  (subsystems.zipIdx.map fun p => (p.2, .stop, (Subsystem.stop (Subsystem.start p.1).2).1.isOk)).reverse

theorem stopsBack_append (index : ℕ) (es more : List (Entry σ)) :
    stopsBack index (es ++ more) = stopsBack (index + es.length) more ++ stopsBack index es := by
  rw [stopsBack, stopsBack, stopsBack, up, List.zipIdx_append, List.filter_append, List.map_append,
    List.reverse_append]
  rfl

/-- What a subsystem is registered as. -/
def freshEntry (subsystem : σ) : Entry σ := ⟨subsystem, 0, .healthy, false⟩

theorem stopsBack_started (subsystems : List σ) :
    stopsBack 0 ((subsystems.map freshEntry).map startedEntry) = takesBack subsystems := by
  have all_up : ((subsystems.map freshEntry).map startedEntry).zipIdx.filter (·.1.running) =
      ((subsystems.map freshEntry).map startedEntry).zipIdx := by
    refine List.filter_eq_self.mpr fun p member => ?_
    obtain ⟨e, -, same⟩ := List.mem_map.mp (List.fst_mem_of_mem_zipIdx member)
    rw [← same]
    rfl
  rw [stopsBack, up, all_up, takesBack, List.zipIdx_map, List.zipIdx_map, List.map_map, List.map_map]
  rfl

/-- A boot either starts every subsystem, once and in order, or stops those it has started, once and
in reverse order, and leaves nothing running. -/
theorem boot_all_or_nothing (maxRestarts : UInt32) (backoffMs : UInt64) (subsystems : List σ) :
    match (registered maxRestarts backoffMs subsystems).startAll with
    | (.error err, s, events) =>
        (∃ front failing behind, subsystems = front ++ failing :: behind ∧
          (∀ subsystem ∈ front, (Subsystem.start subsystem).1.isOk = true) ∧
          (Subsystem.start failing).1 = .error err ∧
          calls events = startsFrom 0 front.length ++ (front.length, .start, false) :: takesBack front) ∧
        (∀ e ∈ s.entries, e.running = false) ∧ s.overallHealth = .unhealthy
    | (.ok (), s, events) =>
        calls events = startsFrom 0 subsystems.length ∧
        s.entries.length = subsystems.length ∧ ∀ e ∈ s.entries, e.running = true := by
  have fresh : (registered maxRestarts backoffMs subsystems).entries = subsystems.map freshEntry :=
    registered_entries maxRestarts backoffMs subsystems
  rw [startAll, fresh]
  cases run : startFrom 0 (subsystems.map freshEntry) with
  | mk result others =>
      obtain ⟨entries, events⟩ := others
      cases result with
      | ok =>
          obtain ⟨rfl, -⟩ := startFrom_ok run
          have made := startFrom_calls run
          rw [List.length_map] at made
          refine ⟨made, by simp, ?_⟩
          exact List.forall_mem_map.mpr fun _ _ => rfl
      | error err =>
          obtain ⟨front, failing, behind, split, fine, failed, same, made⟩ := startFrom_error run
          obtain ⟨begun, rest, rfl, rfl, ended⟩ := List.map_eq_append_iff.mp split
          obtain ⟨broken, unused, rfl, rfl, rfl⟩ := List.map_eq_cons_iff.mp ended
          obtain ⟨out, healths⟩ := stopBack_forall 0 entries
          have idle : ∀ e ∈ failedEntry (freshEntry broken) :: unused.map freshEntry, e.running = false :=
            List.forall_mem_cons.mpr ⟨rfl, List.forall_mem_map.mpr fun _ _ => rfl⟩
          have stops : calls (visitBack stopEntry 0 entries).2 = takesBack begun := by
            rw [calls_stopBack, same, stopsBack_append, stopsBack_started, stopsBack, up_eq_nil.mpr idle]
            rfl
          have worst : .unhealthy ∈ (visitBack stopEntry 0 entries).1.map (·.lastHealth) := by
            rw [healths, same, List.map_append]
            exact List.mem_append_right _ (.head _)
          refine ⟨⟨begun, broken, unused, rfl, ?_, failed, ?_⟩, out, (overall_eq_unhealthy _).mpr worst⟩
          · exact fun subsystem member => fine _ (List.mem_map_of_mem member)
          · rw [List.length_map, Nat.zero_add] at made
            rw [calls_append, made, stops, List.append_assoc, List.singleton_append]

end Supervisor
end KaiOs.Node
