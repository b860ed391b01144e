import KaiOs.Health.Liveness

/-! The thresholds of the watchdog in machine arithmetic, for all start ticks and thresholds. No one is declared
dead too early, and no tick panics, as long as no tick adds up thresholds that leave `u64` together. -/
namespace KaiOs.Health
open Machine Traces

/-- The thresholds leave `u64` together. -/
def ServiceEntry.Overflows (e : ServiceEntry) : Prop := 2 ^ 64 ≤ e.staleAfter.toNat + e.deadAfter.toNat

section
variable (build : Build)

/-- The tick is taken, and whoever dies in it has missed more ticks than both thresholds allow. -/
def NeverEarly (past : List Watched) (wd : Watchdog) : Prop :=
  ∃ next, wd.tick build = some next ∧
    ∀ id, wd.state id ≠ .ok .declaredDead → next.state id = .ok .declaredDead →
      ∃ s d, thresholds id past = some (s, d) ∧ s.toNat + d.toNat < missed id (past ++ [(.tick, .ticked)])

/-- In the next tick no service with such thresholds becomes stale, and a checked clock goes on. -/
def Within (wd : Watchdog) : Prop :=
  (build = .checked → wd.nowTick.toNat + 1 < 2 ^ 64) ∧
    ∀ (id : String) e, wd.services[id]? = some e → e.state ≠ .declaredDead → e.Overflows →
      saturatingSub (wd.nowTick + 1) e.lastHeartbeat ≤ e.staleAfter

end

/-- The clock is that many ticks behind the last sign of life, rounds not counted. A service with thresholds that
overflow is running or dead, and its count of missed ticks is exact until it cannot become stale any more. -/
structure Timed (now : UInt64) (id : String) (past : List Watched) (e : ServiceEntry) : Prop where
  registered : thresholds id past = some (e.staleAfter, e.deadAfter)
  elapsed : (e.lastHeartbeat.toNat + missed id past) % 2 ^ 64 = now.toNat
  alive : e.Overflows → e.state ≠ .declaredDead → e.state = .running ∧
    ((e.lastHeartbeat.toNat + missed id past < 2 ^ 64 ∧ missed id past ≤ e.staleAfter.toNat) ∨
      2 ^ 64 ≤ e.lastHeartbeat.toNat + e.staleAfter.toNat + 1)

def Clocked (past : List Watched) (wd : Watchdog) : Prop :=
  ∀ id : String, (wd.services[id]? = none → thresholds id past = none) ∧
    ∀ e, wd.services[id]? = some e → Timed wd.nowTick id past e

section Entry
variable {build : Build} {now : UInt64} {e e' : ServiceEntry}

/-- The service is stale, or becomes so now. -/
def ServiceEntry.Summed (e : ServiceEntry) (now : UInt64) : Prop :=
  e.state = .stale ∨ e.state = .running ∧ e.staleAfter < saturatingSub now e.lastHeartbeat

theorem evaluate_summed (build : Build) (summed : e.Summed now) : evaluate build now e =
    (build.add e.staleAfter e.deadAfter).map fun threshold =>
      { e with state := if threshold < saturatingSub now e.lastHeartbeat then .declaredDead else .stale } := by
  unfold evaluate
  extract_lets since entry
  have stale : entry = { e with state := .stale } := by
    obtain fresh | overdue := summed
    · have kept : entry = e := if_neg fun fits => by cases fresh.symm.trans fits.1
      rw [kept, ← fresh]
    · exact if_pos overdue
  rw [stale, if_pos rfl]
  refine congrArg (fun f => Option.map f (build.add e.staleAfter e.deadAfter)) ?_
  funext threshold
  split <;> rfl

theorem evaluate_unsummed (build : Build) (unsummed : ¬e.Summed now) : evaluate build now e = some e := by
  obtain ⟨fresh, prompt⟩ := not_or.mp unsummed
  unfold evaluate
  extract_lets since entry
  have kept : entry = e := if_neg prompt
  rw [kept, if_neg fresh]

/-- A tick changes the state and nothing else. -/
theorem evaluate_frame (evaluated : evaluate build now e = some e') : e' = { e with state := e'.state } := by
  by_cases summed : e.Summed now
  · rw [evaluate_summed build summed] at evaluated
    obtain ⟨threshold, -, rfl⟩ := Option.map_eq_some_iff.mp evaluated
    rfl
  · rw [evaluate_unsummed build summed] at evaluated
    cases evaluated
    rfl

theorem evaluate_fits (build : Build) (now : UInt64) (fits : ¬e.Overflows) :
    ∃ e', evaluate build now e = some e' ∧ (e.state ≠ .declaredDead → e'.state = .declaredDead →
      e.staleAfter.toNat + e.deadAfter.toNat < (saturatingSub now e.lastHeartbeat).toNat) := by
  have within : e.staleAfter.toNat + e.deadAfter.toNat < 2 ^ 64 := Nat.lt_of_not_le fits
  by_cases summed : e.Summed now
  · rw [evaluate_summed build summed, build.add_of_fits within]
    refine ⟨_, rfl, fun _ died => ?_⟩
    dsimp only at died
    split_ifs at died with beyond
    rwa [UInt64.lt_iff_toNat_lt, toNat_add_of_fits within] at beyond
  · exact ⟨e, evaluate_unsummed build summed, fun alive dead => absurd dead alive⟩

/-- Thresholds that overflow kill in a release build, and stop a checked one. -/
theorem evaluate_overflows (overflows : e.Overflows) (run : e.state = .running)
    (late : e.staleAfter < saturatingSub now e.lastHeartbeat) :
    evaluate .checked now e = none ∧ evaluate .release now e = some { e with state := .declaredDead } := by
  have summed : e.Summed now := .inr ⟨run, late⟩
  have wrapped : (e.staleAfter + e.deadAfter).toNat < e.staleAfter.toNat := by
    have bound := e.staleAfter.toNat_lt
    have bound' := e.deadAfter.toNat_lt
    unfold ServiceEntry.Overflows at overflows
    rw [UInt64.toNat_add]
    omega
  have beyond : e.staleAfter + e.deadAfter < saturatingSub now e.lastHeartbeat := by
    rw [UInt64.lt_iff_toNat_lt] at late ⊢
    exact Nat.lt_trans wrapped late
  rw [evaluate_summed .checked summed, evaluate_summed .release summed]
  constructor
  · rw [Build.add, if_neg (Nat.not_lt.mpr overflows)]
    rfl
  · rw [Build.add, Option.map_some, if_pos beyond]

end Entry

section Ticks
variable {build : Build} {now : UInt64} {id : String} {past : List Watched} {e : ServiceEntry}

theorem Timed.later (timed : Timed now id past e) :
    (e.lastHeartbeat.toNat + (missed id past + 1)) % 2 ^ 64 = (now + 1).toNat := by
  have elapsed := timed.elapsed
  have one : (1 : UInt64).toNat = 1 := rfl
  rw [UInt64.toNat_add, one]
  omega

theorem Timed.since_le (timed : Timed now id past e) :
    (saturatingSub (now + 1) e.lastHeartbeat).toNat ≤ missed id past + 1 := by
  have later := timed.later
  rw [toNat_saturatingSub]
  omega

theorem Timed.stays (timed : Timed now id past e) (build : Build) (alive : e.state ≠ .declaredDead)
    (overflows : e.Overflows) (prompt : saturatingSub (now + 1) e.lastHeartbeat ≤ e.staleAfter) :
    evaluate build (now + 1) e = some e ∧ Timed (now + 1) id (past ++ [(.tick, .ticked)]) e := by
  obtain ⟨run, count⟩ := timed.alive overflows alive
  have unsummed : ¬e.Summed (now + 1) := by
    rintro (stale | ⟨-, late⟩)
    · cases run.symm.trans stale
    · exact UInt64.not_lt.mpr prompt late
  refine ⟨evaluate_unsummed build unsummed, ⟨?_, ?_, fun _ _ => ⟨run, ?_⟩⟩⟩
  · rw [thresholds_concat, timed.registered, Option.some_or]
  · rw [missed_tick, timed.later]
  · have later := timed.later
    rw [UInt64.le_iff_toNat_le, toNat_saturatingSub] at prompt
    rw [missed_tick]
    omega

theorem Timed.tick (timed : Timed now id past e) (build : Build)
    (quiet : e.state ≠ .declaredDead → e.Overflows →
      saturatingSub (now + 1) e.lastHeartbeat ≤ e.staleAfter) :
    ∃ e', evaluate build (now + 1) e = some e' ∧ Timed (now + 1) id (past ++ [(.tick, .ticked)]) e' ∧
      (e.state ≠ .declaredDead → e'.state = .declaredDead →
        e.staleAfter.toNat + e.deadAfter.toNat < missed id (past ++ [(.tick, .ticked)])) := by
  have registered : thresholds id (past ++ [(.tick, .ticked)]) = some (e.staleAfter, e.deadAfter) := by
    rw [thresholds_concat, timed.registered, Option.some_or]
  have elapsed : (e.lastHeartbeat.toNat + missed id (past ++ [(.tick, .ticked)])) % 2 ^ 64 = (now + 1).toNat := by
    rw [missed_tick, timed.later]
  by_cases dead : e.state = .declaredDead
  · refine ⟨e, evaluate_dead build _ dead, ⟨registered, elapsed, ?_⟩, ?_⟩
    · exact fun _ alive => absurd dead alive
    · exact fun alive => absurd dead alive
  by_cases overflows : e.Overflows
  · obtain ⟨same, timed'⟩ := timed.stays build dead overflows (quiet dead overflows)
    exact ⟨e, same, timed', fun alive died => absurd died alive⟩
  · obtain ⟨e', evaluated, late⟩ := evaluate_fits build (now + 1) overflows
    have frame := evaluate_frame evaluated
    refine ⟨e', evaluated, ?_, fun alive died => ?_⟩
    · rw [frame]
      exact ⟨registered, elapsed, fun again => absurd again overflows⟩
    · rw [missed_tick]
      exact Nat.lt_of_lt_of_le (late alive died) timed.since_le

end Ticks

section Calls
variable {build : Build} {id : String} {past : List Watched} {wd next : Watchdog}

/-- Behind such calls a tick is sound exactly if none of the sums it computes overflows. -/
theorem Clocked.neverEarly_iff (clocked : Clocked past wd) : NeverEarly build past wd ↔ Within build wd := by
  constructor
  · rintro ⟨next, passed, early⟩
    obtain ⟨clock, entries⟩ := Watchdog.tick_some passed
    refine ⟨?_, fun id e found alive overflows => ?_⟩
    · rintro rfl
      exact Build.fits_of_checked clock
    · by_contra prompt
      have late : e.staleAfter < saturatingSub (wd.nowTick + 1) e.lastHeartbeat := UInt64.not_le.mp prompt
      have timed := (clocked id).2 e found
      obtain ⟨run, count⟩ := timed.alive overflows alive
      obtain ⟨stopped, killed⟩ := evaluate_overflows overflows run late
      obtain ⟨e', evaluated, found'⟩ := (entries id).1 e found
      rw [Build.eq_of_add clock] at evaluated
      cases build with
      | checked => cases stopped.symm.trans evaluated
      | release =>
          cases killed.symm.trans evaluated
          have before : wd.state id ≠ .ok .declaredDead := by
            rw [Watchdog.state, found]
            exact fun same => alive (Except.ok.inj same)
          have after : next.state id = .ok .declaredDead := by rw [Watchdog.state, found']
          obtain ⟨s, d, registered, bound⟩ := early id before after
          cases timed.registered.symm.trans registered
          -- the sum is beyond `u64`, what was missed is not
          have since := timed.since_le
          have elapsed := timed.later
          rw [UInt64.lt_iff_toNat_lt, toNat_saturatingSub] at late
          rw [missed_tick] at bound
          have reach := e.staleAfter.toNat_lt
          have now := (wd.nowTick + 1).toNat_lt
          unfold ServiceEntry.Overflows at overflows
          omega
  · rintro ⟨room, quiet⟩
    have clock : build.add wd.nowTick 1 = some (wd.nowTick + 1) := by
      cases build with
      | checked => exact Build.add_of_fits .checked (room rfl)
      | release => rfl
    have told (id : String) (e : ServiceEntry) (found : wd.services[id]? = some e) :
        ∃ e', evaluate build (wd.nowTick + 1) e = some e' ∧
          (wd.state id ≠ .ok .declaredDead → e'.state = .declaredDead → ∃ s d, thresholds id past = some (s, d) ∧
            s.toNat + d.toNat < missed id (past ++ [(.tick, .ticked)])) := by
      have timed := (clocked id).2 e found
      obtain ⟨e', evaluated, -, late⟩ := timed.tick build (quiet id e found)
      refine ⟨e', evaluated, fun before died => ⟨e.staleAfter, e.deadAfter, timed.registered, late ?_ died⟩⟩
      intro dead
      exact before (Watchdog.state_eq_ok.mpr ⟨e, found, dead⟩)
    have ticks : (wd.tick build).isSome := by
      refine Watchdog.tick_isSome clock fun id e found => ?_
      obtain ⟨e', evaluated, -⟩ := told id e found
      rw [evaluated]
      rfl
    obtain ⟨next, passed⟩ := Option.isSome_iff_exists.mp ticks
    obtain ⟨clock', -⟩ := Watchdog.tick_some passed
    rw [← Build.eq_of_add clock'] at told
    refine ⟨next, passed, fun id before after => ?_⟩
    obtain ⟨e', found', died⟩ := Watchdog.state_eq_ok.mp after
    exact (Watchdog.tick_entries passed (fun _ _ => trivial) told id).2 e' found' before died

theorem Timed.pass {now : UInt64} {e : ServiceEntry} {x : Watched} (timed : Timed now id past e)
    (silent : signOfLife id x = false) (still : x.1 ≠ .tick) : Timed now id (past ++ [x]) e := by
  have missed : missed id (past ++ [x]) = missed id past := by rw [missed_concat, missedStep_silent silent still]
  refine ⟨?_, ?_, ?_⟩
  · rw [thresholds_concat, registrationOf_silent silent, timed.registered, Option.some_or]
  · rw [missed, timed.elapsed]
  · rw [missed]
    exact timed.alive

theorem Timed.revived {now : UInt64} {x : Watched} (alive : signOfLife id x = true) {s d : UInt64}
    (registered : thresholds id (past ++ [x]) = some (s, d)) (restarts : UInt64) :
    Timed now id (past ++ [x]) ⟨.running, now, s, d, restarts⟩ := by
  refine ⟨registered, ?_, fun _ _ => ⟨rfl, .inl ⟨?_, ?_⟩⟩⟩
  · rw [missed_alive alive]
    exact Nat.mod_eq_of_lt now.toNat_lt
  · rw [missed_alive alive]
    exact now.toNat_lt
  · rw [missed_alive alive]
    exact Nat.zero_le _

theorem Clocked.pass {x : Watched} (clocked : Clocked past wd) (still : x.1 ≠ .tick)
    (silent : ∀ id, signOfLife id x = false) : Clocked (past ++ [x]) wd := by
  intro id
  refine ⟨fun missing => ?_, fun e found => ((clocked id).2 e found).pass (silent id) still⟩
  rw [thresholds_concat, (clocked id).1 missing, registrationOf_silent (silent id), Option.or_none]

theorem Clocked.enter {x : Watched} {e : ServiceEntry} (clocked : Clocked past wd) (still : x.1 ≠ .tick)
    (silent : ∀ other ≠ id, signOfLife other x = false) (own : Timed wd.nowTick id (past ++ [x]) e) :
    Clocked (past ++ [x]) ⟨wd.nowTick, wd.services.insert id e⟩ := by
  apply Watchdog.insert_entries own
  intro other apart
  have silent := silent other apart
  refine ⟨fun missing => ?_, fun e' found => ((clocked other).2 e' found).pass silent still⟩
  rw [thresholds_concat, (clocked other).1 missing, registrationOf_silent silent, Option.or_none]

theorem Clocked.tick (clocked : Clocked past wd) (within : Within build wd) (passed : wd.tick build = some next) :
    Clocked (past ++ [(.tick, .ticked)]) next := by
  obtain ⟨clock, -⟩ := Watchdog.tick_some passed
  apply Watchdog.tick_entries passed
  · intro id missing
    rw [thresholds_concat, (clocked id).1 missing]
    rfl
  · intro id e found
    obtain ⟨e', evaluated, timed, -⟩ := ((clocked id).2 e found).tick build (within.2 id e found)
    rw [Build.eq_of_add clock]
    exact ⟨e', evaluated, timed⟩

theorem clocked_step {call : WatchdogCall} {answer : WatchdogAnswer} (clocked : Clocked past wd)
    (within : call = .tick → Within build wd) (answers : Answers build wd call answer next) :
    Clocked (past ++ [(call, answer)]) next := by
  cases answers with
  | duplicate | unheard | late | unknown | denied => exact clocked.pass (by simp) fun _ => rfl
  | registered id s d missing =>
      have alive : signOfLife id (.register id s d, .done (.ok ())) = true := decide_eq_true rfl
      refine clocked.enter (by simp) (fun other apart => decide_eq_false apart.symm) (Timed.revived alive ?_ 0)
      rw [thresholds_concat, (clocked id).1 missing, Option.none_or]
      exact if_pos rfl
  | beat id e found =>
      have alive : signOfLife id (.heartbeat id, .done (.ok ())) = true := decide_eq_true rfl
      refine clocked.enter (by simp) (fun other apart => decide_eq_false apart.symm)
        (Timed.revived alive ?_ e.restarts)
      rw [thresholds_concat, ((clocked id).2 e found).registered, Option.some_or]
  | ticked next passed => exact clocked.tick (within rfl) passed
  | restarted id e r found =>
      have alive : signOfLife id (.restart id, .restarted (.ok r)) = true := decide_eq_true rfl
      refine clocked.enter (by simp) (fun other apart => decide_eq_false apart.symm) (Timed.revived alive ?_ r)
      rw [thresholds_concat, ((clocked id).2 e found).registered, Option.some_or]

end Calls

/-- In every run, from every start tick, all ticks are taken and none declares a service dead before its time,
exactly if no tick adds up thresholds that leave `u64` and no checked clock runs out. -/
theorem ticks_never_early_iff (build : Build) (start : UInt64) (calls : List WatchdogCall) :
    (∀ front past wd, front ++ [.tick] <+: calls →
      run (watchdogStep build) (.new start) front = some (past, wd) → NeverEarly build past wd) ↔
    ∀ front past wd, front ++ [.tick] <+: calls →
      run (watchdogStep build) (.new start) front = some (past, wd) → Within build wd := by
  have fresh : Clocked [] (.new start) := by
    intro id
    rw [Watchdog.new, Std.ExtTreeMap.getElem?_empty]
    exact ⟨fun _ => rfl, fun e found => by cases found⟩
  have tells (past : List Watched) (wd : Watchdog) (call : WatchdogCall) (clocked : Clocked past wd) :
      (call = .tick → NeverEarly build past wd) ↔ (call = .tick → Within build wd) :=
    imp_congr_right fun _ => clocked.neverEarly_iff
  have keeps (past : List Watched) (wd : Watchdog) (call : WatchdogCall) (answer : WatchdogAnswer)
      (next : Watchdog) (clocked : Clocked past wd) (within : call = .tick → Within build wd)
      (taken : watchdogStep build wd call = some (answer, next)) : Clocked (past ++ [(call, answer)]) next :=
    clocked_step clocked within (step_iff.mp taken)
  have runs := run_iff fresh tells keeps calls
  constructor
  · intro sound front past wd begun ran
    refine runs.mp (fun front call past wd begun ran tick => ?_) front .tick past wd begun ran rfl
    exact sound front past wd (tick ▸ begun) ran
  · intro within front past wd begun ran
    refine runs.mpr (fun front call past wd begun ran tick => ?_) front .tick past wd begun ran rfl
    exact within front past wd (tick ▸ begun) ran

/-- The largest second threshold wraps to the sum 0: death on the second tick, or a panic. So does the largest
start tick. -/
theorem thresholds_wrap :
    (∃ past wd, run (watchdogStep .release) (.new 0) [.register "svc" 1 18446744073709551615, .tick, .tick] =
        some (past, wd) ∧
      thresholds "svc" past = some (1, 18446744073709551615) ∧ missed "svc" past = 2 ∧
      wd.state "svc" = .ok .declaredDead) ∧
      run (watchdogStep .checked) (.new 0) [.register "svc" 1 18446744073709551615, .tick, .tick] = none ∧
      run (watchdogStep .checked) (.new 18446744073709551615) [.tick] = none :=
  ⟨⟨_, _, rfl, rfl, rfl, rfl⟩, rfl, rfl⟩

end KaiOs.Health
