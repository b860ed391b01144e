import KaiOs.Node.Supervisor

/-! The restart policy over any number of ticks: how many restarts a subsystem gets, and when it is
taken out of service. -/
namespace KaiOs.Node
namespace Supervisor
variable {σ : Type}

/-- A supervisor with the given subsystems. -/
def registered (maxRestarts : UInt32) (backoffMs : UInt64) (subsystems : List σ) : Supervisor σ :=
  subsystems.foldl register (new maxRestarts backoffMs)

theorem register_all (s : Supervisor σ) (subsystems : List σ) : subsystems.foldl register s =
    { s with entries := s.entries ++ subsystems.map fun subsystem => ⟨subsystem, 0, .healthy, false⟩ } := by
  induction subsystems generalizing s with
  | nil => rw [List.foldl_nil, List.map_nil, List.append_nil]
  | cons first subsystems ih =>
      rw [List.foldl_cons, ih, register, List.append_assoc]
      rfl

theorem registered_entries (maxRestarts : UInt32) (backoffMs : UInt64) (subsystems : List σ) :
    (registered maxRestarts backoffMs subsystems).entries =
      subsystems.map fun subsystem => ⟨subsystem, 0, .healthy, false⟩ := by
  rw [registered, register_all, new, List.nil_append]

theorem registered_maxRestarts (maxRestarts : UInt32) (backoffMs : UInt64) (subsystems : List σ) :
    (registered maxRestarts backoffMs subsystems).maxRestarts = maxRestarts := by
  rw [registered, register_all, new]

section
variable [Subsystem σ]

/-- What an entry is behind its successful start. -/
def startedEntry (e : Entry σ) : Entry σ :=
  { e with
    subsystem := (Subsystem.start e.subsystem).2
    running := true
    lastHealth := Subsystem.health (Subsystem.start e.subsystem).2 }

theorem startFrom_started {e : Entry σ} (start : (Subsystem.start e.subsystem).1 = .ok ()) (index : ℕ)
    (es : List (Entry σ)) :
    startFrom index (e :: es) =
      ((startFrom (index + 1) es).1, startedEntry e :: (startFrom (index + 1) es).2.1,
        .called index .start true :: .recorded "supervisor" s!"started {Subsystem.name e.subsystem}" ::
          (startFrom (index + 1) es).2.2) := by
  rw [startFrom, startedEntry]
  cases begun : Subsystem.start e.subsystem with
  | mk result after =>
      rw [begun] at start
      cases start
      rfl

theorem startFrom_failed {e : Entry σ} {err : SubsystemError}
    (start : (Subsystem.start e.subsystem).1 = .error err) (index : ℕ) (es : List (Entry σ)) :
    startFrom index (e :: es) =
      (.error err, { e with subsystem := (Subsystem.start e.subsystem).2, lastHealth := .unhealthy } :: es,
        [.called index .start false,
          .recorded "supervisor" s!"BOOT FAILED at {Subsystem.name e.subsystem}: {err.text}"]) := by
  rw [startFrom]
  cases begun : Subsystem.start e.subsystem with
  | mk result after =>
      rw [begun] at start
      cases start
      rfl

theorem startFrom_cases {index : ℕ} {e : Entry σ} {es started : List (Entry σ)}
    {result : Except SubsystemError Unit} {events : List Event}
    (h : startFrom index (e :: es) = (result, started, events)) :
    (∃ err, (Subsystem.start e.subsystem).1 = .error err ∧ result = .error err ∧
      started = { e with subsystem := (Subsystem.start e.subsystem).2, lastHealth := .unhealthy } :: es ∧
      events = [.called index .start false,
        .recorded "supervisor" s!"BOOT FAILED at {Subsystem.name e.subsystem}: {err.text}"]) ∨
    (Subsystem.start e.subsystem).1 = .ok () ∧ ∃ rest later,
      startFrom (index + 1) es = (result, rest, later) ∧ started = startedEntry e :: rest ∧
      events = .called index .start true ::
        .recorded "supervisor" s!"started {Subsystem.name e.subsystem}" :: later := by
  cases start : (Subsystem.start e.subsystem).1 with
  | error err =>
      rw [startFrom_failed start] at h
      cases h
      exact .inl ⟨err, rfl, rfl, rfl, rfl⟩
  | ok =>
      rw [startFrom_started start] at h
      cases h
      exact .inr ⟨rfl, _, _, rfl, rfl, rfl⟩

theorem startFrom_ok {index : ℕ} {es started : List (Entry σ)} {events : List Event}
    (h : startFrom index es = (.ok (), started, events)) :
    started = es.map startedEntry ∧ ∀ e ∈ es, (Subsystem.start e.subsystem).1.isOk = true := by
  induction es generalizing index started events with
  | nil =>
      cases h
      exact ⟨rfl, nofun⟩
  | cons e es ih =>
      rcases startFrom_cases h with ⟨_, _, broken, _⟩ | ⟨start, rest, later, goes, rfl, -⟩
      · cases broken
      · obtain ⟨same, all⟩ := ih goes
        refine ⟨?_, List.forall_mem_cons.mpr ⟨by rw [start]; rfl, all⟩⟩
        rw [same, List.map_cons]

theorem startAll_ok {s started : Supervisor σ} {events : List Event}
    (h : s.startAll = (.ok (), started, events)) :
    started = { s with entries := s.entries.map startedEntry } ∧
      ∀ e ∈ s.entries, (Subsystem.start e.subsystem).1.isOk = true := by
  rw [startAll] at h
  cases run : startFrom 0 s.entries with
  | mk result others =>
      rw [run] at h
      cases result with
      | error err => cases h
      | ok =>
          cases h
          obtain ⟨same, all⟩ := startFrom_ok run
          exact ⟨by rw [same], all⟩

/-- Ticks, one after the other, and all that happens in them. -/
def ticks (s : Supervisor σ) : ℕ → Supervisor σ × List Event
  | 0 => (s, [])
  | n + 1 => ((s.ticks n).1.tickAll.2.1, (s.ticks n).2 ++ (s.ticks n).1.tickAll.2.2)

/-- The attempts made to restart a subsystem in the first ticks. -/
def attempts (s : Supervisor σ) (index n : ℕ) : ℕ :=
  (callsAt index (s.ticks n).2).countP fun call => call.1 = .start

/-- With less than the last attempt used up, a restart succeeds. -/
def RestartHolds (s : Supervisor σ) (index n : ℕ) : Prop :=
  ∀ e, (s.ticks n).1.entries[index]? = some e → e.running = true →
    (Subsystem.tick e.subsystem).1.isOk = false → e.restarts.toNat + 1 < s.maxRestarts.toNat →
    (Subsystem.start (Subsystem.stop (Subsystem.tick e.subsystem).2).2).1.isOk = true

theorem ticks_maxRestarts (s : Supervisor σ) (n : ℕ) : (s.ticks n).1.maxRestarts = s.maxRestarts := by
  induction n with
  | zero => rfl
  | succ n ih => exact ih

theorem attempts_succ (s : Supervisor σ) (index n : ℕ) :
    s.attempts index (n + 1) = s.attempts index n +
      (callsAt index (s.ticks n).1.tickAll.2.2).countP fun call => call.1 = .start := by
  rw [attempts, ticks, callsAt_append, List.countP_append]
  rfl

/-- The counter of an entry is the number of its restarts, and stays within the limit. -/
structure Counted (maxRestarts : UInt32) (attempts : ℕ) (e : Entry σ) : Prop where
  counter : e.restarts.toNat = attempts
  limit : attempts ≤ maxRestarts.toNat

theorem counted_tick {maxRestarts : UInt32} {made : ℕ} {e next : Entry σ} {calls : List (Method × Bool)}
    (counted : Counted maxRestarts made e) (ticked : Ticked maxRestarts e next calls) :
    Counted maxRestarts (made + calls.countP fun call => call.1 = .start) next := by
  obtain ⟨counter, limit⟩ := counted
  cases ticked with
  | skipped | ticked | gaveUp => exact ⟨counter, limit⟩
  | restarted stop start up failed allowed =>
      rw [UInt32.lt_iff_toNat_lt, counter] at allowed
      have below := maxRestarts.toNat_lt
      refine ⟨?_, allowed⟩
      rw [UInt32.toNat_add, counter]
      exact Nat.mod_eq_of_lt (by simp; omega)

theorem counted_ticks {s : Supervisor σ} (fresh : ∀ e ∈ s.entries, e.restarts = 0) (index n : ℕ) :
    match (s.ticks n).1.entries[index]? with
    | some e => Counted s.maxRestarts (s.attempts index n) e
    | none => s.attempts index n = 0 := by
  induction n with
  | zero =>
      cases held : (s.ticks 0).1.entries[index]? with
      | none => rfl
      | some e =>
          have zero : e.restarts = 0 := fresh e (List.mem_of_getElem? held)
          exact ⟨by rw [zero]; rfl, Nat.zero_le _⟩
  | succ n ih =>
      rw [attempts_succ]
      cases held : (s.ticks n).1.entries[index]? with
      | none =>
          rw [held] at ih
          obtain ⟨none, quiet⟩ := tickAll_none held
          rw [ticks, none, quiet]
          exact ih
      | some e =>
          rw [held] at ih
          obtain ⟨next, found, ticked⟩ := tickAll_entry held
          rw [ticks, found]
          rw [ticks_maxRestarts] at ticked
          exact counted_tick ih ticked

/-- A tick that takes an entry out of service has made the last allowed attempt, unless a restart
fails to start with attempts left. -/
theorem leaves_iff {maxRestarts : UInt32} {made : ℕ} {e next : Entry σ} {calls : List (Method × Bool)}
    (counted : Counted maxRestarts made e) (ticked : Ticked maxRestarts e next calls) :
    (e.running = true ∧ next.running = false →
      made + calls.countP (fun call => call.1 = .start) = maxRestarts.toNat) ↔
    (e.running = true → (Subsystem.tick e.subsystem).1.isOk = false →
      e.restarts.toNat + 1 < maxRestarts.toNat →
      (Subsystem.start (Subsystem.stop (Subsystem.tick e.subsystem).2).2).1.isOk = true) := by
  obtain ⟨counter, limit⟩ := counted
  cases ticked with
  | skipped out => simp [out]
  | ticked up fine => simp [up, fine]
  | gaveUp stop up failed spent =>
      rw [UInt32.lt_iff_toNat_lt, counter] at spent
      refine iff_of_true (fun _ => ?_) fun _ _ more => absurd more (by omega)
      show made = maxRestarts.toNat
      omega
  | restarted stop start up failed allowed stopped started =>
      rw [UInt32.lt_iff_toNat_lt, counter] at allowed
      subst stopped started
      constructor
      · intro last _ _ more
        by_contra refused
        have spent : made + 1 = maxRestarts.toNat := last ⟨up, (Bool.not_eq_true _).mp refused⟩
        omega
      · rintro holds ⟨-, out⟩
        show made + 1 = maxRestarts.toNat
        by_contra more
        have started := holds up failed (by omega)
        exact Bool.noConfusion (started.symm.trans out)

theorem restartHolds_iff {s : Supervisor σ} (fresh : ∀ e ∈ s.entries, e.restarts = 0) (index n : ℕ) :
    ((s.ticks n).1.inService index = true ∧ (s.ticks (n + 1)).1.inService index = false →
      s.attempts index (n + 1) = s.maxRestarts.toNat) ↔ s.RestartHolds index n := by
  have counted := counted_ticks fresh index n
  rw [attempts_succ, RestartHolds, ticks, inService, inService]
  cases held : (s.ticks n).1.entries[index]? with
  | none => exact iff_of_true (fun left => nomatch left.1) nofun
  | some e =>
      rw [held] at counted
      obtain ⟨next, found, ticked⟩ := tickAll_entry held
      rw [ticks_maxRestarts] at ticked
      rw [found]
      refine (leaves_iff counted ticked).trans ⟨?_, fun holds => holds e rfl⟩
      rintro holds _ ⟨⟩
      exact holds

theorem attempts_le {s : Supervisor σ} (fresh : ∀ e ∈ s.entries, e.restarts = 0) (index n : ℕ) :
    s.attempts index n ≤ s.maxRestarts.toNat := by
  have counted := counted_ticks fresh index n
  split at counted
  · exact counted.limit
  · exact Nat.le_trans (Nat.le_of_eq counted) (Nat.zero_le _)

/-- A subsystem is taken out of service exactly behind its last allowed restart, and never restarted
more often, if and only if every restart before the last one starts it. -/
theorem restart_policy_iff (maxRestarts : UInt32) (backoffMs : UInt64) (subsystems : List σ)
    {s : Supervisor σ} {events : List Event}
    (booted : (registered maxRestarts backoffMs subsystems).startAll = (.ok (), s, events)) (total : ℕ) :
    (∀ index,
      (∀ n < total, (s.ticks n).1.inService index = true ∧ (s.ticks (n + 1)).1.inService index = false →
        s.attempts index (n + 1) = maxRestarts.toNat) ∧
      ∀ n ≤ total, s.attempts index n ≤ maxRestarts.toNat) ↔
    ∀ index, ∀ n < total, s.RestartHolds index n := by
  obtain ⟨same, -⟩ := startAll_ok booted
  have limit : s.maxRestarts = maxRestarts := by rw [same, registered_maxRestarts]
  have fresh : ∀ e ∈ s.entries, e.restarts = 0 := by
    rw [same, registered_entries, List.map_map, List.forall_mem_map]
    exact fun _ _ => rfl
  rw [← limit]
  refine forall_congr' fun index => ?_
  rw [and_iff_left fun n _ => attempts_le fresh index n]
  exact forall₂_congr fun n _ => restartHolds_iff fresh index n

end
end Supervisor

/-- A subsystem whose starts and ticks end as written down, and well behind that. -/
structure Scripted where
  name : String
  starts : List Bool
  ticks : List Bool

def outcome (ok : Bool) : Except SubsystemError Unit := if ok then .ok () else .error ⟨"simulated failure"⟩

instance : Subsystem Scripted where
  name := Scripted.name
  start s := (outcome (s.starts.headD true), { s with starts := s.starts.tail })
  stop s := (.ok (), s)
  health _ := .healthy
  tick s := (outcome (s.ticks.headD true), { s with ticks := s.ticks.tail })

open Supervisor

/-- The supervisor behind its boot with one subsystem. -/
def bootedWith (maxRestarts : UInt32) (subsystem : Scripted) : Supervisor Scripted :=
  (registered maxRestarts 0 [subsystem]).startAll.2.1

theorem restart_policy_single :
    (∀ n < 5, ((bootedWith 1 ⟨"vm", [true, false], [true, false]⟩).ticks n).1.inService 0 = true ∧
        ((bootedWith 1 ⟨"vm", [true, false], [true, false]⟩).ticks (n + 1)).1.inService 0 = false →
      (bootedWith 1 ⟨"vm", [true, false], [true, false]⟩).attempts 0 (n + 1) = 1) ∧
    ∀ n ≤ 5, (bootedWith 1 ⟨"vm", [true, false], [true, false]⟩).attempts 0 n ≤ 1 := by
  refine (restart_policy_iff 1 0 [⟨"vm", [true, false], [true, false]⟩] rfl 5).mpr ?_ 0
  intro _ n _ e _ _ _ more
  exact absurd more (Nat.not_lt.mpr (Nat.le_add_left 1 e.restarts.toNat))

/-- The first restart of three does not start, and the subsystem is never tried again. -/
theorem restart_not_repeated :
    ((bootedWith 3 ⟨"vm", [true, false], [false]⟩).ticks 0).1.inService 0 = true ∧
    ((bootedWith 3 ⟨"vm", [true, false], [false]⟩).ticks 1).1.inService 0 = false ∧
    (bootedWith 3 ⟨"vm", [true, false], [false]⟩).attempts 0 1 = 1 := by
  decide

end KaiOs.Node
