import KaiOs.Lib.Machine
import KaiOs.State.Merkle

/-! `health/src/watchdog.rs`: services are watched by the ticks they miss. Operations that add
depend on the build; `none` is a panic. -/
namespace KaiOs.Health
open Machine

inductive ServiceState where
  | running
  | stale
  | declaredDead
  deriving DecidableEq

inductive WatchdogError where
  | unknownService (service : String)
  | duplicateService (service : String)
  | illegalRestart (service : String) (state : ServiceState)
  | illegalHeartbeat (service : String) (state : ServiceState)
  deriving DecidableEq

/-- `{state:?}` -/
def ServiceState.debug : ServiceState → String
  | .running => "Running"
  | .stale => "Stale"
  | .declaredDead => "DeclaredDead"

def WatchdogError.display : WatchdogError → String
  | .unknownService s => "unknown service '" ++ s ++ "' (fail-closed)"
  | .duplicateService s => "service '" ++ s ++ "' already registered"
  | .illegalRestart service state =>
      "restart denied for '" ++ service ++ "' in state " ++ state.debug ++ " (only DeclaredDead)"
  | .illegalHeartbeat service state =>
      "heartbeat denied for '" ++ service ++ "' in state " ++ state.debug ++ " (dead services need restart)"

structure ServiceEntry where
  state : ServiceState
  lastHeartbeat : UInt64
  staleAfter : UInt64
  deadAfter : UInt64
  restarts : UInt64

structure Watchdog where
  nowTick : UInt64
  services : BTreeMap String ServiceEntry

/-- `u64::saturating_sub` -/
def saturatingSub (a b : UInt64) : UInt64 := if b ≤ a then a - b else 0

section
variable (build : Build)

/-- The loop body of `tick`. -/
def evaluate (now : UInt64) (entry : ServiceEntry) : Option ServiceEntry :=
  let missed := saturatingSub now entry.lastHeartbeat
  let entry :=
    if entry.state = .running ∧ missed > entry.staleAfter then { entry with state := .stale } else entry
  if entry.state = .stale then
    (build.add entry.staleAfter entry.deadAfter).map fun threshold =>
      if missed > threshold then { entry with state := .declaredDead } else entry
  else some entry

/-- The loop over `services.values_mut()`. -/
def evaluateAll (now : UInt64) (services : BTreeMap String ServiceEntry) :
    List (String × ServiceEntry) → Option (BTreeMap String ServiceEntry)
  | [] => some services
  | (id, entry) :: entries =>
      (evaluate build now entry).bind fun entry => evaluateAll now (services.insert id entry) entries

end

namespace Watchdog

def new (startTick : UInt64) : Watchdog := ⟨startTick, ∅⟩

def register (wd : Watchdog) (serviceId : String) (staleAfter deadAfter : UInt64) :
    Except WatchdogError Unit × Watchdog :=
  if wd.services.contains serviceId then (.error (.duplicateService serviceId), wd)
  else
    (.ok (), { wd with
      services := wd.services.insert serviceId ⟨.running, wd.nowTick, staleAfter, deadAfter, 0⟩ })

def heartbeat (wd : Watchdog) (serviceId : String) : Except WatchdogError Unit × Watchdog :=
  match wd.services[serviceId]? with
  | none => (.error (.unknownService serviceId), wd)
  | some entry =>
      match entry.state with
      | .declaredDead => (.error (.illegalHeartbeat serviceId entry.state), wd)
      | .stale | .running =>
          (.ok (), { wd with
            services := wd.services.insert serviceId
              { entry with state := .running, lastHeartbeat := wd.nowTick } })

def tick (build : Build) (wd : Watchdog) : Option Watchdog :=
  (build.add wd.nowTick 1).bind fun now =>
    (evaluateAll build now wd.services wd.services.toList).map fun services => ⟨now, services⟩

def state (wd : Watchdog) (serviceId : String) : Except WatchdogError ServiceState :=
  match wd.services[serviceId]? with
  | some e => .ok e.state
  | none => .error (.unknownService serviceId)

def restartCount (wd : Watchdog) (serviceId : String) : Except WatchdogError UInt64 :=
  match wd.services[serviceId]? with
  | some e => .ok e.restarts
  | none => .error (.unknownService serviceId)

def report (wd : Watchdog) : List (String × ServiceState × UInt64) :=
  wd.services.toList.map fun (id, e) => (id, e.state, e.restarts)

def restart (build : Build) (wd : Watchdog) (serviceId : String) :
    Option (Except WatchdogError UInt64 × Watchdog) :=
  match wd.services[serviceId]? with
  | none => some (.error (.unknownService serviceId), wd)
  | some entry =>
      if entry.state ≠ .declaredDead then some (.error (.illegalRestart serviceId entry.state), wd)
      else (build.add entry.restarts 1).map fun restarts =>
        (.ok restarts, { wd with
          services := wd.services.insert serviceId
            { entry with restarts, state := .running, lastHeartbeat := wd.nowTick } })

end Watchdog

/-- What the thresholds say of a service that missed so many ticks. -/
def due (staleAfter deadAfter missed : ℕ) : ServiceState :=
  if missed ≤ staleAfter then .running else if missed ≤ staleAfter + deadAfter then .stale else .declaredDead

def ServiceEntry.dueAfter (e : ServiceEntry) (missed : ℕ) : ServiceState :=
  due e.staleAfter.toNat e.deadAfter.toNat missed

theorem toNat_saturatingSub (a b : UInt64) : (saturatingSub a b).toNat = a.toNat - b.toNat := by
  rw [saturatingSub]
  split
  next le => exact UInt64.toNat_sub_of_le a b le
  next less =>
    rw [UInt64.le_iff_toNat_le] at less
    rw [Nat.sub_eq_zero_of_le (by omega)]
    rfl

theorem evaluate_eq (build : Build) {now : UInt64} {entry : ServiceEntry} {missed : ℕ}
    (fits : entry.staleAfter.toNat + entry.deadAfter.toNat < 2 ^ 64)
    (elapsed : entry.lastHeartbeat.toNat + (missed + 1) = now.toNat) (held : entry.state = entry.dueAfter missed) :
    evaluate build now entry = some { entry with state := entry.dueAfter (missed + 1) } := by
  have since : (saturatingSub now entry.lastHeartbeat).toNat = missed + 1 := by
    rw [toNat_saturatingSub]
    omega
  obtain ⟨state, last, staleAfter, deadAfter, restarts⟩ := entry
  simp only [ServiceEntry.dueAfter] at fits held since ⊢
  have late : staleAfter < saturatingSub now last ↔ ¬ missed + 1 ≤ staleAfter.toNat := by
    rw [UInt64.lt_iff_toNat_lt, since, Nat.not_le]
  have later : staleAfter + deadAfter < saturatingSub now last ↔
      ¬ missed + 1 ≤ staleAfter.toNat + deadAfter.toNat := by
    rw [UInt64.lt_iff_toNat_lt, since, toNat_add_of_fits fits, Nat.not_le]
  subst held
  by_cases run : missed + 1 ≤ staleAfter.toNat
  · have before : missed ≤ staleAfter.toNat := by omega
    simp [evaluate, due, run, before, late]
  · by_cases stale : missed + 1 ≤ staleAfter.toNat + deadAfter.toNat
    · have early : missed ≤ staleAfter.toNat + deadAfter.toNat := by omega
      by_cases before : missed ≤ staleAfter.toNat
      · simp [evaluate, due, run, stale, before, late, later, build.add_of_fits fits]
      · simp [evaluate, due, run, stale, before, early, later, build.add_of_fits fits]
    · by_cases before : missed ≤ staleAfter.toNat
      · simp [evaluate, due, run, stale, before, late, later, build.add_of_fits fits]
      · by_cases early : missed ≤ staleAfter.toNat + deadAfter.toNat
        · simp [evaluate, due, run, stale, before, early, later, build.add_of_fits fits]
        · simp [evaluate, due, run, stale, before, early]

/-- Time does not heal the dead, and no threshold is added up for them. -/
theorem evaluate_dead (build : Build) (now : UInt64) {entry : ServiceEntry} (dead : entry.state = .declaredDead) :
    evaluate build now entry = some entry := by
  simp [evaluate, dead]

section
variable {build : Build} {now : UInt64}

theorem evaluateAll_lookup {services out : BTreeMap String ServiceEntry} {entries : List (String × ServiceEntry)}
    (h : evaluateAll build now services entries = some out)
    (distinct : entries.Pairwise fun a b => a.1 ≠ b.1) (id : String) :
    (∀ e, (id, e) ∈ entries → ∃ e', evaluate build now e = some e' ∧ out[id]? = some e') ∧
      ((∀ e, (id, e) ∉ entries) → out[id]? = services[id]?) := by
  induction entries generalizing services with
  | nil =>
      cases h
      exact ⟨nofun, fun _ => rfl⟩
  | cons p entries ih =>
      obtain ⟨e, evaluated, h⟩ := Option.bind_eq_some_iff.mp h
      obtain ⟨apart, distinct⟩ := List.pairwise_cons.mp distinct
      obtain ⟨visited, other⟩ := ih h distinct
      rw [lookup_insert] at other
      constructor
      · intro entry member
        rcases List.mem_cons.mp member with rfl | later
        · refine ⟨e, evaluated, ?_⟩
          rw [other fun e' again => apart _ again rfl, if_pos rfl]
        · exact visited entry later
      · intro absent
        rw [other fun e' later => absent e' (List.mem_cons_of_mem _ later),
          if_neg fun (same : p.1 = id) => absent p.2 (same ▸ List.mem_cons_self)]

theorem evaluateAll_isSome {services : BTreeMap String ServiceEntry} {entries : List (String × ServiceEntry)}
    (all : ∀ p ∈ entries, (evaluate build now p.2).isSome) : (evaluateAll build now services entries).isSome := by
  induction entries generalizing services with
  | nil => rfl
  | cons p entries ih =>
      obtain ⟨e, evaluated⟩ := Option.isSome_iff_exists.mp (all p List.mem_cons_self)
      rw [evaluateAll, evaluated]
      exact ih fun q member => all q (List.mem_cons_of_mem _ member)

end

namespace Watchdog
variable {build : Build}

theorem register_eq (wd : Watchdog) (id : String) (staleAfter deadAfter : UInt64) :
    wd.register id staleAfter deadAfter =
      match wd.services[id]? with
      | some _ => (.error (.duplicateService id), wd)
      | none =>
          (.ok (), ⟨wd.nowTick, wd.services.insert id ⟨.running, wd.nowTick, staleAfter, deadAfter, 0⟩⟩) := by
  rw [register, Std.ExtTreeMap.contains_eq_isSome_getElem?]
  cases wd.services[id]? <;> rfl

theorem heartbeat_eq {wd : Watchdog} {id : String} {e : ServiceEntry} (found : wd.services[id]? = some e) :
    wd.heartbeat id =
      if e.state = .declaredDead then (.error (.illegalHeartbeat id e.state), wd)
      else (.ok (),
        ⟨wd.nowTick, wd.services.insert id { e with state := .running, lastHeartbeat := wd.nowTick }⟩) := by
  rw [heartbeat, found]
  cases state : e.state <;> simp only [state] <;> rfl

theorem state_eq_ok {wd : Watchdog} {id : String} {s : ServiceState} :
    wd.state id = .ok s ↔ ∃ e, wd.services[id]? = some e ∧ e.state = s := by
  rw [state]
  cases wd.services[id]? with
  | none => exact ⟨nofun, nofun⟩
  | some e =>
      refine ⟨fun same => ⟨e, rfl, Except.ok.inj same⟩, ?_⟩
      rintro ⟨_, same, rfl⟩
      cases same
      rfl

theorem toList_distinct (wd : Watchdog) : wd.services.toList.Pairwise fun a b => a.1 ≠ b.1 :=
  Std.ExtTreeMap.distinct_keys_toList.imp fun apart same => apart (Std.LawfulEqCmp.compare_eq_iff_eq.mpr same)

theorem tick_some {wd next : Watchdog} (h : wd.tick build = some next) :
    build.add wd.nowTick 1 = some next.nowTick ∧ ∀ id : String,
      (∀ e, wd.services[id]? = some e →
        ∃ e', evaluate build next.nowTick e = some e' ∧ next.services[id]? = some e') ∧
      (wd.services[id]? = none → next.services[id]? = none) := by
  obtain ⟨now, clock, h⟩ := Option.bind_eq_some_iff.mp h
  obtain ⟨services, looped, h⟩ := Option.map_eq_some_iff.mp h
  cases h
  refine ⟨clock, fun id => ?_⟩
  obtain ⟨visited, other⟩ := evaluateAll_lookup looped wd.toList_distinct id
  constructor
  · intro e found
    exact visited e (Std.ExtTreeMap.mem_toList_iff_getElem?_eq_some.mpr found)
  · intro missing
    rw [← missing]
    refine other fun e member => ?_
    rw [Std.ExtTreeMap.mem_toList_iff_getElem?_eq_some, missing] at member
    cases member

theorem tick_isSome {wd : Watchdog} {now : UInt64} (clock : build.add wd.nowTick 1 = some now)
    (all : ∀ (id : String) e, wd.services[id]? = some e → (evaluate build now e).isSome) :
    (wd.tick build).isSome := by
  rw [tick, clock, Option.bind_some, Option.isSome_map]
  refine evaluateAll_isSome fun p member => all p.1 p.2 ?_
  exact Std.ExtTreeMap.mem_toList_iff_getElem?_eq_some.mp member

section Entries
variable {absent : String → Prop} {held : String → ServiceEntry → Prop}

/-- The new entry has to hold what the others hold. -/
theorem insert_entries {services : BTreeMap String ServiceEntry} {id : String} {e : ServiceEntry} (own : held id e)
    (others : ∀ other ≠ id, (services[other]? = none → absent other) ∧
      ∀ e', services[other]? = some e' → held other e') (other : String) :
    ((services.insert id e)[other]? = none → absent other) ∧
      ∀ e', (services.insert id e)[other]? = some e' → held other e' := by
  rw [lookup_insert]
  by_cases same : id = other
  · subst same
    rw [if_pos rfl]
    refine ⟨fun missing => absurd missing (Option.some_ne_none e), fun e' found => ?_⟩
    cases found
    exact own
  · rw [if_neg same]
    exact others other fun equal => same equal.symm

theorem tick_entries {wd next : Watchdog} (passed : wd.tick build = some next)
    (missing : ∀ id : String, wd.services[id]? = none → absent id)
    (entry : ∀ (id : String) e, wd.services[id]? = some e →
      ∃ e', evaluate build next.nowTick e = some e' ∧ held id e') (id : String) :
    (next.services[id]? = none → absent id) ∧ ∀ e', next.services[id]? = some e' → held id e' := by
  obtain ⟨-, entries⟩ := tick_some passed
  cases found : wd.services[id]? with
  | none =>
      rw [(entries id).2 found]
      exact ⟨fun _ => missing id found, fun e' found' => by cases found'⟩
  | some e =>
      obtain ⟨e', evaluated, found'⟩ := (entries id).1 e found
      obtain ⟨e'', again, holds⟩ := entry id e found
      cases evaluated.symm.trans again
      rw [found']
      refine ⟨fun none => absurd none (Option.some_ne_none e'), fun _ same => ?_⟩
      cases same
      exact holds

end Entries

end Watchdog

end KaiOs.Health
