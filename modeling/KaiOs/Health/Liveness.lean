import KaiOs.Health.WatchdogRuns

/-! The watchdog over whole runs: what it says of a service is told by the ticks since the
service's last accepted sign of life. -/
namespace KaiOs.Health
open Machine Traces

section
variable (id : String)

def registrationOf : Watched → Option (UInt64 × UInt64)
  | (.register service staleAfter deadAfter, .done (.ok _)) =>
      if service = id then some (staleAfter, deadAfter) else none
  | _ => none

def missedStep (missed : ℕ) (x : Watched) : ℕ :=
  if signOfLife id x then 0 else if x.1 = .tick then missed + 1 else missed

/-- The ticks since the last sign of life. -/
def missed (past : List Watched) : ℕ := past.foldl (missedStep id) 0

def restarts (past : List Watched) : ℕ := past.countP (restartOf id)

def thresholds (past : List Watched) : Option (UInt64 × UInt64) := past.findSome? (registrationOf id)

end

def ticks (calls : List WatchdogCall) : ℕ := calls.count .tick

variable {build : Build} {wd next : Watchdog} {call : WatchdogCall} {answer : WatchdogAnswer}

section
variable {id : String} {past : List Watched}

theorem missed_concat (x : Watched) : missed id (past ++ [x]) = missedStep id (missed id past) x :=
  List.foldl_concat ..

theorem missed_tick (id : String) (past : List Watched) :
    missed id (past ++ [(.tick, .ticked)]) = missed id past + 1 := by
  rw [missed_concat]
  rfl

theorem restarts_concat (x : Watched) :
    restarts id (past ++ [x]) = restarts id past + if restartOf id x then 1 else 0 := by
  rw [restarts, List.countP_append, List.countP_singleton, restarts]

theorem thresholds_concat (x : Watched) :
    thresholds id (past ++ [x]) = (thresholds id past).or (registrationOf id x) := by
  rw [thresholds, List.findSome?_append, List.findSome?_singleton, thresholds]

theorem ticks_concat (x : Watched) :
    ticks ((past ++ [x]).map Prod.fst) = ticks (past.map Prod.fst) + if x.1 = .tick then 1 else 0 := by
  rw [ticks, List.map_append, List.count_append, ticks]
  congr 1
  simp [List.count_cons]

end

/-- The entry of a service is what the calls so far make of it. -/
structure Tracks (start now : UInt64) (id : String) (past : List Watched) (e : ServiceEntry) : Prop where
  registered : thresholds id past = some (e.staleAfter, e.deadAfter)
  fits : e.staleAfter.toNat + e.deadAfter.toNat < 2 ^ 64
  elapsed : e.lastHeartbeat.toNat + missed id past = now.toNat
  state : e.state = e.dueAfter (missed id past)
  restarted : e.restarts.toNat = restarts id past
  /-- A tick lies between two restarts, so the counter stays behind the clock. -/
  paced : start.toNat + e.restarts.toNat ≤ e.lastHeartbeat.toNat

def Follows (start : UInt64) (past : List Watched) (wd : Watchdog) : Prop :=
  wd.nowTick.toNat = start.toNat + ticks (past.map Prod.fst) ∧ ∀ id : String,
    (wd.services[id]? = none → thresholds id past = none ∧ restarts id past = 0) ∧
      ∀ e, wd.services[id]? = some e → Tracks start wd.nowTick id past e

section
variable {id : String} {start now : UInt64} {past : List Watched} {x : Watched}

theorem registrationOf_silent (silent : signOfLife id x = false) : registrationOf id x = none := by
  match x, silent with
  | (.register _ _ _, .done (.ok _)), silent => exact if_neg (of_decide_eq_false silent)
  | (.register _ _ _, .done (.error _)), _ | (.register _ _ _, .ticked), _ | (.register _ _ _, .restarted _), _
  | (.heartbeat _, _), _ | (.tick, _), _ | (.restart _, _), _ => rfl

theorem restartOf_silent (silent : signOfLife id x = false) : restartOf id x = false := by
  match x, silent with
  | (.restart _, .restarted (.ok _)), silent => exact silent
  | (.restart _, .restarted (.error _)), _ | (.restart _, .ticked), _ | (.restart _, .done _), _
  | (.register _ _ _, _), _ | (.heartbeat _, _), _ | (.tick, _), _ => rfl

theorem missedStep_silent (silent : signOfLife id x = false) (still : x.1 ≠ .tick) (n : ℕ) :
    missedStep id n x = n := by
  rw [missedStep, silent, if_neg Bool.false_ne_true, if_neg still]

theorem missed_alive (alive : signOfLife id x = true) : missed id (past ++ [x]) = 0 := by
  rw [missed_concat, missedStep, if_pos alive]

theorem absent_pass (absent : thresholds id past = none ∧ restarts id past = 0)
    (silent : signOfLife id x = false) :
    thresholds id (past ++ [x]) = none ∧ restarts id (past ++ [x]) = 0 := by
  rw [thresholds_concat, restarts_concat, registrationOf_silent silent, restartOf_silent silent,
    absent.1, absent.2]
  exact ⟨rfl, rfl⟩

theorem Tracks.pass {e : ServiceEntry} (tracks : Tracks start now id past e) (silent : signOfLife id x = false)
    (still : x.1 ≠ .tick) : Tracks start now id (past ++ [x]) e := by
  have missed : missed id (past ++ [x]) = missed id past := by
    rw [missed_concat, missedStep_silent silent still]
  exact {
    registered := by rw [thresholds_concat, registrationOf_silent silent, tracks.registered, Option.some_or]
    fits := tracks.fits
    elapsed := by rw [missed, tracks.elapsed]
    state := by rw [missed, tracks.state]
    restarted := by rw [restarts_concat, restartOf_silent silent, tracks.restarted]; rfl
    paced := tracks.paced }

theorem Tracks.revived (alive : signOfLife id x = true) {s d r : UInt64}
    (registered : thresholds id (past ++ [x]) = some (s, d)) (fits : s.toNat + d.toNat < 2 ^ 64)
    (restarted : r.toNat = restarts id (past ++ [x])) (paced : start.toNat + r.toNat ≤ now.toNat) :
    Tracks start now id (past ++ [x]) ⟨.running, now, s, d, r⟩ := by
  refine ⟨registered, fits, ?_, ?_, restarted, paced⟩
  · rw [missed_alive alive, Nat.add_zero]
  · rw [missed_alive alive, ServiceEntry.dueAfter, due, if_pos (Nat.zero_le _)]

variable {wd : Watchdog}

theorem Follows.pass (follows : Follows start past wd) (still : x.1 ≠ .tick)
    (silent : ∀ id, signOfLife id x = false) : Follows start (past ++ [x]) wd := by
  have clock : wd.nowTick.toNat = start.toNat + ticks ((past ++ [x]).map Prod.fst) := by
    rw [ticks_concat, if_neg still, follows.1, Nat.add_zero]
  refine ⟨clock, fun id => ⟨fun missing => ?_, fun e found => ?_⟩⟩
  · exact absent_pass ((follows.2 id).1 missing) (silent id)
  · exact ((follows.2 id).2 e found).pass (silent id) still

theorem Follows.enter {e : ServiceEntry} (follows : Follows start past wd) (still : x.1 ≠ .tick)
    (silent : ∀ other ≠ id, signOfLife other x = false) (own : Tracks start wd.nowTick id (past ++ [x]) e) :
    Follows start (past ++ [x]) ⟨wd.nowTick, wd.services.insert id e⟩ := by
  have clock : wd.nowTick.toNat = start.toNat + ticks ((past ++ [x]).map Prod.fst) := by
    rw [ticks_concat, if_neg still, follows.1, Nat.add_zero]
  refine ⟨clock, Watchdog.insert_entries own fun other apart => ?_⟩
  have silent := silent other apart
  exact ⟨fun missing => absent_pass ((follows.2 other).1 missing) silent,
    fun e' found => ((follows.2 other).2 e' found).pass silent still⟩

theorem Tracks.missed_pos {e : ServiceEntry} (tracks : Tracks start now id past e)
    (dead : e.state = .declaredDead) :
    0 < missed id past := by
  by_contra none
  have zero : missed id past = 0 := by omega
  rw [tracks.state, ServiceEntry.dueAfter, due, zero, if_pos (Nat.zero_le _)] at dead
  cases dead

theorem Tracks.restart_fits {e : ServiceEntry} (tracks : Tracks start now id past e)
    (dead : e.state = .declaredDead) :
    start.toNat + (e.restarts.toNat + 1) ≤ now.toNat ∧ e.restarts.toNat + (1 : UInt64).toNat < 2 ^ 64 := by
  have paced := tracks.paced
  have elapsed := tracks.elapsed
  have waited := tracks.missed_pos dead
  have bound := now.toNat_lt
  have one : (1 : UInt64).toNat = 1 := rfl
  omega

theorem Tracks.tick {e : ServiceEntry} {later : UInt64} (tracks : Tracks start now id past e) (build : Build)
    (clock : later.toNat = now.toNat + 1) :
    ∃ e', evaluate build later e = some e' ∧ Tracks start later id (past ++ [(.tick, .ticked)]) e' := by
  have elapsed : e.lastHeartbeat.toNat + (missed id past + 1) = later.toNat := by
    rw [clock, ← tracks.elapsed, Nat.add_assoc]
  refine ⟨_, evaluate_eq build tracks.fits elapsed tracks.state, ?_⟩
  exact {
    registered := by rw [thresholds_concat, tracks.registered, Option.some_or]
    fits := tracks.fits
    elapsed := by rw [missed_tick]; exact elapsed
    state := by rw [missed_tick]; rfl
    restarted := by rw [restarts_concat, ← tracks.restarted]; rfl
    paced := tracks.paced }

theorem Follows.tick {next : Watchdog} (follows : Follows start past wd) (room : wd.nowTick.toNat + 1 < 2 ^ 64)
    (passed : wd.tick build = some next) : Follows start (past ++ [(.tick, .ticked)]) next := by
  obtain ⟨clock, -⟩ := Watchdog.tick_some passed
  have later : next.nowTick.toNat = wd.nowTick.toNat + 1 := by
    rw [Build.eq_of_add clock]
    exact toNat_add_of_fits room
  refine ⟨by rw [ticks_concat, if_pos rfl, later, follows.1, Nat.add_assoc],
    Watchdog.tick_entries passed (fun id missing => ?_) fun id e found => ?_⟩
  · exact absent_pass ((follows.2 id).1 missing) rfl
  · exact ((follows.2 id).2 e found).tick build later

end

/-- The thresholds of a registration do not overflow together. -/
def WatchdogCall.Fits : WatchdogCall → Prop
  | .register _ staleAfter deadAfter => staleAfter.toNat + deadAfter.toNat < 2 ^ 64
  | _ => True

theorem follows_step {start : UInt64} {past : List Watched} (follows : Follows start past wd) (fits : call.Fits)
    (room : call = .tick → wd.nowTick.toNat + 1 < 2 ^ 64) (answers : Answers build wd call answer next) :
    Follows start (past ++ [(call, answer)]) next := by
  cases answers with
  | duplicate | unheard | late | unknown | denied => exact follows.pass (by simp) fun _ => rfl
  | registered id s d missing =>
      have alive : signOfLife id (.register id s d, .done (.ok ())) = true := decide_eq_true rfl
      obtain ⟨unregistered, unstarted⟩ := (follows.2 id).1 missing
      refine follows.enter (by simp) (fun other apart => decide_eq_false apart.symm)
        (.revived alive ?_ fits ?_ ?_)
      · rw [thresholds_concat, unregistered, Option.none_or]
        exact if_pos rfl
      · rw [restarts_concat, unstarted]
        rfl
      · rw [follows.1]
        exact Nat.le_add_right _ _
  | beat id e found alive =>
      have life : signOfLife id (.heartbeat id, .done (.ok ())) = true := decide_eq_true rfl
      have tracks := (follows.2 id).2 e found
      refine follows.enter (by simp) (fun other apart => decide_eq_false apart.symm)
        (.revived life ?_ tracks.fits ?_ ?_)
      · rw [thresholds_concat, tracks.registered, Option.some_or]
      · rw [restarts_concat, ← tracks.restarted]
        rfl
      · exact Nat.le_trans tracks.paced (Nat.le.intro tracks.elapsed)
  | ticked next passed => exact follows.tick (room rfl) passed
  | restarted id e r found dead counted =>
      have life : signOfLife id (.restart id, .restarted (.ok r)) = true := decide_eq_true rfl
      have tracks := (follows.2 id).2 e found
      obtain ⟨paced, fits⟩ := tracks.restart_fits dead
      have more : r.toNat = e.restarts.toNat + 1 := by
        rw [Build.eq_of_add counted]
        exact toNat_add_of_fits fits
      refine follows.enter (by simp) (fun other apart => decide_eq_false apart.symm)
        (.revived life ?_ tracks.fits ?_ ?_)
      · rw [thresholds_concat, tracks.registered, Option.some_or]
      · rw [restarts_concat, ← tracks.restarted, more]
        exact congrArg (e.restarts.toNat + ·) (if_pos (decide_eq_true rfl)).symm
      · rw [more]
        exact paced

theorem exists_step (build : Build) {start : UInt64} {past : List Watched} (follows : Follows start past wd)
    (room : call = .tick → wd.nowTick.toNat + 1 < 2 ^ 64) :
    ∃ answer next, watchdogStep build wd call = some (answer, next) := by
  cases call with
  | register | heartbeat => exact ⟨_, _, rfl⟩
  | tick =>
      have one : (1 : UInt64).toNat = 1 := rfl
      have clock : build.add wd.nowTick 1 = some (wd.nowTick + 1) := build.add_of_fits (room rfl)
      have later : (wd.nowTick + 1).toNat = wd.nowTick.toNat + 1 := toNat_add_of_fits (room rfl)
      have ticks : (wd.tick build).isSome := by
        refine Watchdog.tick_isSome clock fun id e found => ?_
        obtain ⟨e', evaluated, -⟩ := ((follows.2 id).2 e found).tick build later
        rw [evaluated]
        rfl
      obtain ⟨next, passed⟩ := Option.isSome_iff_exists.mp ticks
      exact ⟨_, next, step_iff.mpr (.ticked next passed)⟩
  | restart id =>
      cases found : wd.services[id]? with
      | none => exact ⟨_, _, step_iff.mpr (.unknown id found)⟩
      | some e =>
          by_cases dead : e.state = .declaredDead
          · have counted := build.add_of_fits (((follows.2 id).2 e found).restart_fits dead).2
            exact ⟨_, _, step_iff.mpr (.restarted id e _ found dead counted)⟩
          · exact ⟨_, _, step_iff.mpr (.denied id e found dead)⟩

/-- No such run panics, and at its end the entries are what the calls make of them. -/
theorem follows_run (build : Build) {start : UInt64} {calls : List WatchdogCall} (fits : ∀ call ∈ calls, call.Fits)
    (clock : start.toNat + ticks calls < 2 ^ 64) :
    ∃ past wd, run (watchdogStep build) (.new start) calls = some (past, wd) ∧ Follows start past wd := by
  have fresh : Follows start [] (.new start) := by
    refine ⟨rfl, fun id => ?_⟩
    rw [Watchdog.new, Std.ExtTreeMap.getElem?_empty]
    exact ⟨fun _ => ⟨rfl, rfl⟩, nofun⟩
  refine run_progress (fun past wd call rest split follows => ?_) (List.nil_append calls) fresh
  have room : call = .tick → wd.nowTick.toNat + 1 < 2 ^ 64 := by
    rintro rfl
    rw [follows.1]
    rw [← split, ticks, List.count_append, List.count_cons_self] at clock
    rw [ticks]
    omega
  have fit : call.Fits := fits call (split ▸ List.mem_append_right _ List.mem_cons_self)
  obtain ⟨answer, next, taken⟩ := exists_step build follows room
  exact ⟨answer, next, taken, follows_step follows fit room (step_iff.mp taken)⟩

/-- What is said of a registered service, by the ticks it missed and the restarts it had. -/
structure Told (wd : Watchdog) (id : String) (staleAfter deadAfter missed restarts : ℕ) : Prop where
  running : wd.state id = .ok .running ↔ missed ≤ staleAfter
  stale : wd.state id = .ok .stale ↔ staleAfter < missed ∧ missed ≤ staleAfter + deadAfter
  dead : wd.state id = .ok .declaredDead ↔ staleAfter + deadAfter < missed
  counted : ∃ n : UInt64, wd.restartCount id = .ok n ∧ n.toNat = restarts

theorem due_iff (staleAfter deadAfter missed : ℕ) :
    (due staleAfter deadAfter missed = .running ↔ missed ≤ staleAfter) ∧
      (due staleAfter deadAfter missed = .stale ↔ staleAfter < missed ∧ missed ≤ staleAfter + deadAfter) ∧
      (due staleAfter deadAfter missed = .declaredDead ↔ staleAfter + deadAfter < missed) := by
  rw [due]
  split
  · simp
    omega
  · split
    · simp
      omega
    · simp
      omega

theorem told_of_follows {start : UInt64} {past : List Watched} (follows : Follows start past wd) {id : String}
    {s d : UInt64} (registered : thresholds id past = some (s, d)) :
    Told wd id s.toNat d.toNat (missed id past) (restarts id past) := by
  obtain ⟨absent, tracked⟩ := follows.2 id
  cases found : wd.services[id]? with
  | none =>
      rw [(absent found).1] at registered
      cases registered
  | some e =>
      have tracks := tracked e found
      cases tracks.registered.symm.trans registered
      have state : wd.state id = .ok (e.dueAfter (missed id past)) := by
        rw [Watchdog.state, found, ← tracks.state]
      obtain ⟨running, stale, dead⟩ := due_iff e.staleAfter.toNat e.deadAfter.toNat (missed id past)
      rw [← ServiceEntry.dueAfter] at running stale dead
      have told (s : ServiceState) : wd.state id = .ok s ↔ e.dueAfter (missed id past) = s := by
        rw [state, Except.ok.injEq]
      refine ⟨(told _).trans running, (told _).trans stale, (told _).trans dead, e.restarts, ?_, tracks.restarted⟩
      rw [Watchdog.restartCount, found]

/-- In every run that stays within `u64` the state of a service is told by the ticks since its last
accepted sign of life; death lasts until a restart, and calls to other services do not matter. -/
theorem services_timed (build : Build) {start : UInt64} {calls : List WatchdogCall}
    (fits : ∀ call ∈ calls, call.Fits) (clock : start.toNat + ticks calls < 2 ^ 64) :
    ∃ past wd, run (watchdogStep build) (.new start) calls = some (past, wd) ∧ ∀ id,
      (∀ s d, thresholds id past = some (s, d) →
        Told wd id s.toNat d.toNat (missed id past) (restarts id past)) ∧
      (thresholds id past = none → wd.state id = .error (.unknownService id)) ∧
      (∀ front rest mid, past = front ++ rest →
        run (watchdogStep build) (.new start) (front.map Prod.fst) = some (front, mid) →
        mid.state id = .ok .declaredDead → (∀ x ∈ rest, restartOf id x = false) →
        wd.state id = .ok .declaredDead) ∧
      ∃ wd', run (watchdogStep build) (.new start) (calls.filter (concerns id)) =
          some (past.filter (fun x => concerns id x.1), wd') ∧
        wd'.state id = wd.state id ∧ wd'.restartCount id = wd.restartCount id := by
  obtain ⟨past, wd, ran, follows⟩ := follows_run build fits clock
  refine ⟨past, wd, ran, fun id => ⟨fun s d => told_of_follows follows, fun unregistered => ?_, ?_, ?_⟩⟩
  · cases found : wd.services[id]? with
    | none => rw [Watchdog.state, found]
    | some e =>
        rw [((follows.2 id).2 e found).registered] at unregistered
        cases unregistered
  · rintro front rest mid rfl begun dead unrestarted
    obtain ⟨mid', begun', others⟩ := run_cut ran
    cases begun.symm.trans begun'
    exact dead_stays others dead unrestarted
  · obtain ⟨wd', again, alike⟩ := run_alone id ran
    refine ⟨wd', again, ?_, ?_⟩
    · rw [Watchdog.state, Watchdog.state, alike.entry]
    · rw [Watchdog.restartCount, Watchdog.restartCount, alike.entry]

/-- Two ticks behind the heartbeat `svc` is stale; without thresholds one tick is death. -/
theorem services_timed_two :
    ∃ past wd, run (watchdogStep .release) (.new 5) [.register "svc" 1 2, .register "zero" 0 0, .tick,
        .heartbeat "svc", .heartbeat "zero", .tick, .tick] = some (past, wd) ∧
      wd.state "svc" = .ok .stale ∧ wd.state "zero" = .ok .declaredDead := by
  obtain ⟨past, wd, ran, told⟩ := @services_timed .release 5 [.register "svc" 1 2,
    .register "zero" 0 0, .tick, .heartbeat "svc", .heartbeat "zero", .tick, .tick]
    (by simp [WatchdogCall.Fits]) (by decide)
  have answered : (run (watchdogStep .release) (.new 5) [.register "svc" 1 2, .register "zero" 0 0, .tick,
      .heartbeat "svc", .heartbeat "zero", .tick, .tick]).map Prod.fst =
    some [(.register "svc" 1 2, .done (.ok ())), (.register "zero" 0 0, .done (.ok ())), (.tick, .ticked),
      (.heartbeat "svc", .done (.ok ())),
      (.heartbeat "zero", .done (.error (.illegalHeartbeat "zero" .declaredDead))),
      (.tick, .ticked), (.tick, .ticked)] := rfl
  rw [ran] at answered
  cases answered
  refine ⟨_, wd, ran, ?_, ?_⟩
  · exact ((told "svc").1 1 2 rfl).stale.mpr (by decide)
  · exact ((told "zero").1 0 0 rfl).dead.mpr (by decide)

end KaiOs.Health
