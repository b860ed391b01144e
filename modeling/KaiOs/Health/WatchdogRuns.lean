import KaiOs.Health.Watchdog
import KaiOs.Lib.Traces

/-! The calls to a watchdog. A dead service stays dead until it is restarted, and what is said to
other services leaves no trace on one. -/
namespace KaiOs.Health
open Machine Traces

inductive WatchdogCall where
  | register (serviceId : String) (staleAfter deadAfter : UInt64)
  | heartbeat (serviceId : String)
  | tick
  | restart (serviceId : String)
  deriving DecidableEq

inductive WatchdogAnswer where
  | done (result : Except WatchdogError Unit)
  | ticked
  | restarted (result : Except WatchdogError UInt64)

abbrev Watched := WatchdogCall × WatchdogAnswer

section
variable (id : String)

/-- An accepted registration, heartbeat or restart of the service. -/
def signOfLife : Watched → Bool
  | (.register service _ _, .done (.ok _)) => service = id
  | (.heartbeat service, .done (.ok _)) => service = id
  | (.restart service, .restarted (.ok _)) => service = id
  | _ => false

def restartOf : Watched → Bool
  | (.restart service, .restarted (.ok _)) => service = id
  | _ => false

/-- The call is to this service, or a tick. -/
def concerns : WatchdogCall → Bool
  | .register service _ _ | .heartbeat service | .restart service => service = id
  | .tick => true

end

section
variable (build : Build)

def watchdogStep (wd : Watchdog) : WatchdogCall → Option (WatchdogAnswer × Watchdog)
  | .register id staleAfter deadAfter =>
      let (result, next) := wd.register id staleAfter deadAfter
      some (.done result, next)
  | .heartbeat id =>
      let (result, next) := wd.heartbeat id
      some (.done result, next)
  | .tick => (wd.tick build).map fun next => (.ticked, next)
  | .restart id => (wd.restart build id).map fun (result, next) => (.restarted result, next)

/-- Everything a call can do. -/
inductive Answers (wd : Watchdog) : WatchdogCall → WatchdogAnswer → Watchdog → Prop where
  | duplicate (id s d e) (found : wd.services[id]? = some e) :
      Answers wd (.register id s d) (.done (.error (.duplicateService id))) wd
  | registered (id s d) (missing : wd.services[id]? = none) :
      Answers wd (.register id s d) (.done (.ok ()))
        ⟨wd.nowTick, wd.services.insert id ⟨.running, wd.nowTick, s, d, 0⟩⟩
  | unheard (id) (missing : wd.services[id]? = none) :
      Answers wd (.heartbeat id) (.done (.error (.unknownService id))) wd
  | late (id e) (found : wd.services[id]? = some e) (dead : e.state = .declaredDead) :
      Answers wd (.heartbeat id) (.done (.error (.illegalHeartbeat id e.state))) wd
  | beat (id e) (found : wd.services[id]? = some e) (alive : e.state ≠ .declaredDead) :
      Answers wd (.heartbeat id) (.done (.ok ()))
        ⟨wd.nowTick, wd.services.insert id { e with state := .running, lastHeartbeat := wd.nowTick }⟩
  | ticked (next) (passed : wd.tick build = some next) : Answers wd .tick .ticked next
  | unknown (id) (missing : wd.services[id]? = none) :
      Answers wd (.restart id) (.restarted (.error (.unknownService id))) wd
  | denied (id e) (found : wd.services[id]? = some e) (alive : e.state ≠ .declaredDead) :
      Answers wd (.restart id) (.restarted (.error (.illegalRestart id e.state))) wd
  | restarted (id e r) (found : wd.services[id]? = some e) (dead : e.state = .declaredDead)
      (counted : build.add e.restarts 1 = some r) :
      Answers wd (.restart id) (.restarted (.ok r))
        ⟨wd.nowTick, wd.services.insert id
          { e with restarts := r, state := .running, lastHeartbeat := wd.nowTick }⟩

end

variable {build : Build} {wd next : Watchdog} {call : WatchdogCall} {answer : WatchdogAnswer}

theorem step_iff : watchdogStep build wd call = some (answer, next) ↔ Answers build wd call answer next := by
  constructor
  · intro h
    cases call with
    | register id s d =>
        rw [watchdogStep, Watchdog.register_eq] at h
        cases found : wd.services[id]? with
        | none =>
            rw [found] at h
            cases h
            exact .registered id s d found
        | some e =>
            rw [found] at h
            cases h
            exact .duplicate id s d e found
    | heartbeat id =>
        cases found : wd.services[id]? with
        | none =>
            rw [watchdogStep, Watchdog.heartbeat, found] at h
            cases h
            exact .unheard id found
        | some e =>
            rw [watchdogStep, Watchdog.heartbeat_eq found] at h
            by_cases dead : e.state = .declaredDead
            · rw [if_pos dead] at h
              cases h
              exact .late id e found dead
            · rw [if_neg dead] at h
              cases h
              exact .beat id e found dead
    | tick =>
        obtain ⟨_, passed, h⟩ := Option.map_eq_some_iff.mp h
        cases h
        exact .ticked next passed
    | restart id =>
        obtain ⟨⟨result, after⟩, restarted, h⟩ := Option.map_eq_some_iff.mp h
        cases h
        rw [Watchdog.restart] at restarted
        cases found : wd.services[id]? with
        | none =>
            rw [found] at restarted
            cases restarted
            exact .unknown id found
        | some e =>
            rw [found] at restarted
            dsimp only at restarted
            by_cases dead : e.state = .declaredDead
            · rw [if_neg (not_not.mpr dead)] at restarted
              obtain ⟨r, counted, restarted⟩ := Option.map_eq_some_iff.mp restarted
              cases restarted
              exact .restarted id e r found dead counted
            · rw [if_pos dead] at restarted
              cases restarted
              exact .denied id e found dead
  · intro answers
    cases answers with
    | duplicate id s d e found => rw [watchdogStep, Watchdog.register_eq, found]
    | registered id s d missing => rw [watchdogStep, Watchdog.register_eq, missing]
    | unheard id missing => rw [watchdogStep, Watchdog.heartbeat, missing]
    | late id e found dead => rw [watchdogStep, Watchdog.heartbeat_eq found, if_pos dead]
    | beat id e found alive => rw [watchdogStep, Watchdog.heartbeat_eq found, if_neg alive]
    | ticked next passed => rw [watchdogStep, passed, Option.map_some]
    | unknown id missing =>
        rw [watchdogStep, Watchdog.restart, missing]
        rfl
    | denied id e found alive =>
        rw [watchdogStep, Watchdog.restart, found]
        simp only [if_pos alive, Option.map_some]
    | restarted id e r found dead counted =>
        rw [watchdogStep, Watchdog.restart, found]
        simp only [dead, ne_eq, not_true_eq_false, if_false, counted, Option.map_some]

section
variable {id : String}

theorem dead_step {e : ServiceEntry} (found : wd.services[id]? = some e) (dead : e.state = .declaredDead)
    (answers : Answers build wd call answer next) (unrestarted : restartOf id (call, answer) = false) :
    ∃ e', next.services[id]? = some e' ∧ e'.state = .declaredDead := by
  have elsewhere {other : String} {entry : ServiceEntry} (apart : other ≠ id) :
      (wd.services.insert other entry)[id]? = some e := by rw [lookup_insert, if_neg apart, found]
  cases answers with
  | duplicate | unheard | late | unknown | denied => exact ⟨e, found, dead⟩
  | registered other s d missing =>
      refine ⟨e, elsewhere ?_, dead⟩
      rintro rfl
      rw [missing] at found
      cases found
  | beat other entry held alive =>
      refine ⟨e, elsewhere ?_, dead⟩
      rintro rfl
      rw [held] at found
      cases found
      exact alive dead
  | ticked next passed =>
      obtain ⟨e', evaluated, found'⟩ := ((Watchdog.tick_some passed).2 id).1 e found
      refine ⟨e', found', ?_⟩
      rw [evaluate_dead build _ dead] at evaluated
      cases evaluated
      exact dead
  | restarted other => exact ⟨e, elsewhere (of_decide_eq_false unrestarted), dead⟩

theorem dead_stays {calls : List WatchdogCall} {past : List Watched} {last : Watchdog}
    (ran : run (watchdogStep build) wd calls = some (past, last)) (dead : wd.state id = .ok .declaredDead)
    (unrestarted : ∀ x ∈ past, restartOf id x = false) : last.state id = .ok .declaredDead := by
  rw [Watchdog.state_eq_ok] at dead ⊢
  induction calls generalizing wd past with
  | nil =>
      cases ran
      exact dead
  | cons call calls ih =>
      obtain ⟨answer, next, rest, taken, others, rfl⟩ := run_cons ran
      obtain ⟨e, found, state⟩ := dead
      have still := dead_step found state (step_iff.mp taken) (unrestarted _ List.mem_cons_self)
      exact ih others still fun x later => unrestarted x (List.mem_cons_of_mem _ later)

/-- The view of one service in two watchdogs, the second of which watches nothing else. -/
structure Alike (id : String) (wd wd' : Watchdog) : Prop where
  clock : wd'.nowTick = wd.nowTick
  entry : wd'.services[id]? = wd.services[id]?
  alone : ∀ other : String, other ≠ id → wd'.services[other]? = none

theorem Alike.insert {wd' : Watchdog} (alike : Alike id wd wd') (e : ServiceEntry) :
    Alike id ⟨wd.nowTick, wd.services.insert id e⟩ ⟨wd'.nowTick, wd'.services.insert id e⟩ := by
  refine ⟨alike.clock, ?_, fun other apart => ?_⟩
  · dsimp only
    rw [lookup_insert, lookup_insert, if_pos rfl, if_pos rfl]
  · dsimp only
    rw [lookup_insert, if_neg apart.symm, alike.alone other apart]

theorem Alike.enter {wd' : Watchdog} (alike : Alike id wd wd') {other : String} (apart : other ≠ id)
    (e : ServiceEntry) : Alike id ⟨wd.nowTick, wd.services.insert other e⟩ wd' := by
  refine ⟨alike.clock, ?_, alike.alone⟩
  dsimp only
  rw [lookup_insert, if_neg apart, alike.entry]

theorem Alike.tick {wd' : Watchdog} (alike : Alike id wd wd') (passed : wd.tick build = some next) :
    ∃ next', wd'.tick build = some next' ∧ Alike id next next' := by
  obtain ⟨clock, entries⟩ := Watchdog.tick_some passed
  have only {other : String} {e : ServiceEntry} (found : wd'.services[other]? = some e) : other = id := by
    by_contra apart
    rw [alike.alone other apart] at found
    cases found
  have passes : (wd'.tick build).isSome := by
    refine Watchdog.tick_isSome (alike.clock.symm ▸ clock) fun other e found => ?_
    obtain rfl := only found
    obtain ⟨e', evaluated, -⟩ := (entries other).1 e (alike.entry ▸ found)
    rw [evaluated]
    rfl
  obtain ⟨next', passed'⟩ := Option.isSome_iff_exists.mp passes
  obtain ⟨clock', entries'⟩ := Watchdog.tick_some passed'
  have same : next'.nowTick = next.nowTick := by
    rw [alike.clock, clock] at clock'
    exact (Option.some.inj clock').symm
  refine ⟨next', passed', same, ?_, fun other apart => (entries' other).2 (alike.alone other apart)⟩
  cases found : wd.services[id]? with
  | none => rw [(entries id).2 found, (entries' id).2 (alike.entry.trans found)]
  | some e =>
      obtain ⟨e₁, evaluated, found₁⟩ := (entries id).1 e found
      obtain ⟨e₂, evaluated', found₂⟩ := (entries' id).1 e (alike.entry.trans found)
      rw [same, evaluated] at evaluated'
      rw [found₁, found₂, evaluated']

theorem alike_hidden {wd' : Watchdog} (alike : Alike id wd wd') (answers : Answers build wd call answer next)
    (hidden : concerns id call = false) : Alike id next wd' := by
  cases answers with
  | duplicate | unheard | late | unknown | denied => exact alike
  | ticked => cases hidden
  | registered other | beat other | restarted other => exact alike.enter (of_decide_eq_false hidden) _

theorem alike_shown {wd' : Watchdog} (alike : Alike id wd wd') (answers : Answers build wd call answer next)
    (shown : concerns id call = true) : ∃ next', Answers build wd' call answer next' ∧ Alike id next next' := by
  have clock := alike.clock
  have entry := alike.entry
  cases answers with
  | ticked _ passed =>
      obtain ⟨next', passed', alike'⟩ := alike.tick passed
      exact ⟨next', .ticked next' passed', alike'⟩
  | duplicate other s d e found =>
      obtain rfl := of_decide_eq_true shown
      exact ⟨wd', .duplicate other s d e (entry.trans found), alike⟩
  | registered other s d missing =>
      obtain rfl := of_decide_eq_true shown
      exact ⟨_, .registered other s d (entry.trans missing), clock ▸ alike.insert _⟩
  | unheard other missing =>
      obtain rfl := of_decide_eq_true shown
      exact ⟨wd', .unheard other (entry.trans missing), alike⟩
  | late other e found dead =>
      obtain rfl := of_decide_eq_true shown
      exact ⟨wd', .late other e (entry.trans found) dead, alike⟩
  | beat other e found alive =>
      obtain rfl := of_decide_eq_true shown
      exact ⟨_, .beat other e (entry.trans found) alive, clock ▸ alike.insert _⟩
  | unknown other missing =>
      obtain rfl := of_decide_eq_true shown
      exact ⟨wd', .unknown other (entry.trans missing), alike⟩
  | denied other e found alive =>
      obtain rfl := of_decide_eq_true shown
      exact ⟨wd', .denied other e (entry.trans found) alive, alike⟩
  | restarted other e r found dead counted =>
      obtain rfl := of_decide_eq_true shown
      exact ⟨_, .restarted other e r (entry.trans found) dead counted, clock ▸ alike.insert _⟩

/-- Without the calls to other services the run answers the rest alike and keeps the same entry. -/
theorem run_alone {start : UInt64} {calls : List WatchdogCall} {past : List Watched} (id : String)
    (ran : run (watchdogStep build) (.new start) calls = some (past, wd)) :
    ∃ wd', run (watchdogStep build) (.new start) (calls.filter (concerns id)) =
      some (past.filter (fun x => concerns id x.1), wd') ∧ Alike id wd wd' := by
  have fresh : Alike id (Watchdog.new start) (.new start) := ⟨rfl, rfl, fun _ _ => Std.ExtTreeMap.getElem?_empty⟩
  have stays (g h : Watchdog) (call : WatchdogCall) (r : WatchdogAnswer) (next : Watchdog) (alike : Alike id g h)
      (taken : watchdogStep build g call = some (r, next)) (hidden : (! concerns id call) = true) :
      Alike id next h :=
    alike_hidden alike (step_iff.mp taken) (by simpa using hidden)
  have matched (g h : Watchdog) (call : WatchdogCall) (r : WatchdogAnswer) (next : Watchdog) (alike : Alike id g h)
      (taken : watchdogStep build g call = some (r, next)) (shown : (! concerns id call) = false) :
      ∃ r' next', watchdogStep build h call = some (r', next') ∧ (call, r') = (call, r) ∧ Alike id next next' := by
    obtain ⟨next', answers, alike'⟩ := alike_shown alike (step_iff.mp taken) (by simpa using shown)
    exact ⟨r, next', step_iff.mpr answers, rfl, alike'⟩
  obtain ⟨trace, wd', again, same, alike⟩ := @purge _ _ _ (watchdogStep build) Watched (fun x => x) (Alike id)
    (fun x => ! concerns id x.1) stays matched _ _ _ _ _ fresh ran
  simp only [Bool.not_not, List.map_id'] at again same
  subst same
  rw [← run_calls ran, List.filter_map]
  exact ⟨wd', again, alike⟩

end

end KaiOs.Health
