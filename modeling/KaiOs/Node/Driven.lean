import KaiOs.Lib.Traces
import KaiOs.Node.RestartPolicy
import Mathlib.Data.List.Induction

/-! Which subsystems the supervisor drives: over whole runs, with states of earlier processes
restored in between, the `running` flags against what was really started and stopped. -/
namespace KaiOs.Node
open Visits

/-- Started, behind one more call: a failed start changes nothing, a stop counts whatever it
answers. -/
def upStep (up : Bool) : Method × Bool → Bool
  | (.start, ok) => up || ok
  | (.stop, _) => false
  | (.tick, _) => up

def upAfter (up : Bool) (calls : List (Method × Bool)) : Bool := calls.foldl upStep up

/-- The last successful start of the subsystem has no stop behind it. -/
def startedBy (log : List Event) (index : ℕ) : Bool := upAfter false (callsAt index log)

/-- Only what is started is ticked or stopped. -/
def Driven (log : List Event) : Prop :=
  ∀ front index method ok rest, log = front ++ .called index method ok :: rest → method ≠ .start →
    startedBy front index = true

/-- The same for the calls of one subsystem. -/
def Obeys : Bool → List (Method × Bool) → Prop
  | _, [] => True
  | up, call :: calls => (call.1 ≠ .start → up = true) ∧ Obeys (upStep up call) calls

theorem upAfter_append (up : Bool) (calls more : List (Method × Bool)) :
    upAfter up (calls ++ more) = upAfter (upAfter up calls) more := List.foldl_append

theorem obeys_append (up : Bool) (calls more : List (Method × Bool)) :
    Obeys up (calls ++ more) ↔ Obeys up calls ∧ Obeys (upAfter up calls) more := by
  induction calls generalizing up with
  | nil => exact (true_and _).symm.to_iff
  | cons call calls ih => rw [List.cons_append, Obeys, Obeys, ih, and_assoc]; rfl

theorem driven_of_obeys {log : List Event} (obeys : ∀ index, Obeys false (callsAt index log)) : Driven log := by
  rintro front index method ok rest rfl driving
  have calls := obeys index
  rw [callsAt_append, obeys_append, callsAt_called, if_pos rfl] at calls
  exact calls.2.1 driving

namespace Supervisor
variable {σ : Type}

def serves (entries : List (Entry σ)) (index : ℕ) : Bool := (entries[index]?.map (·.running)).getD false

/-- The calls are made to started subsystems, and the flags keep up with them. -/
def Conducts (before : List (Entry σ)) (events : List Event) (after : List (Entry σ)) : Prop :=
  ∀ index, Obeys (serves before index) (callsAt index events) ∧
    upAfter (serves before index) (callsAt index events) = serves after index

theorem Conducts.trans {before mid after : List (Entry σ)} {events more : List Event}
    (first : Conducts before events mid) (then_ : Conducts mid more after) :
    Conducts before (events ++ more) after := by
  intro index
  obtain ⟨obeys, up⟩ := first index
  obtain ⟨obeys', up'⟩ := then_ index
  rw [callsAt_append, obeys_append, upAfter_append, up]
  exact ⟨⟨obeys, obeys'⟩, up'⟩

theorem conducts_quiet {before after : List (Entry σ)} (same : ∀ index, serves after index = serves before index) :
    Conducts before [] after := fun index => ⟨trivial, (same index).symm⟩

theorem conducts_visit {f : ℕ → Entry σ → Entry σ × List Event}
    (own : ∀ i j e, i ≠ j → callsAt i (f j e).2 = [])
    (visit : ∀ index e, Obeys e.running (callsAt index (f index e).2) ∧
      upAfter e.running (callsAt index (f index e).2) = (f index e).1.running) (entries : List (Entry σ)) :
    Conducts entries (visitFrom f 0 entries).2 (visitFrom f 0 entries).1 ∧
      Conducts entries (visitBack f 0 entries).2 (visitBack f 0 entries).1 := by
  have each (index : ℕ) (events : List Event)
      (seen : callsAt index events = (entries[index]?.map fun e => callsAt index (f index e).2).getD []) :
      Obeys (serves entries index) (callsAt index events) ∧
        upAfter (serves entries index) (callsAt index events) = serves (visitFrom f 0 entries).1 index := by
    rw [seen, serves, serves, getElem?_visitFrom, Nat.zero_add]
    cases entries[index]? with
    | none => exact ⟨trivial, rfl⟩
    | some e => exact visit index e
  rw [visitBack_fst]
  have seen (index : ℕ) := seen_visit calledAt own 0 entries index
  simp only [Nat.zero_add] at seen
  exact ⟨fun index => each index _ (seen index).1, fun index => each index _ (seen index).2⟩

theorem register_conducts (s : Supervisor σ) (subsystem : σ) :
    Conducts s.entries [] (s.register subsystem).entries := by
  refine conducts_quiet fun index => ?_
  rw [serves, serves, register]
  dsimp only
  rw [List.getElem?_append]
  split
  · rfl
  · next outside =>
      rw [List.getElem?_eq_none (Nat.not_lt.mp outside)]
      cases index - s.entries.length <;> rfl

section
variable [Subsystem σ]

theorem stopStartedReverse_conducts (entries : List (Entry σ)) :
    Conducts entries (stopStartedReverse entries).2 (stopStartedReverse entries).1 := by
  refine (conducts_visit ?_ ?_ entries).2
  · intro i j e apart
    rw [stopEntry]
    split
    · simp [Ne.symm apart]
    · rfl
  · intro index e
    rw [stopEntry]
    split
    · simp_all [Obeys, upAfter, upStep]
    · exact ⟨trivial, rfl⟩

theorem ticked_conducts {maxRestarts : UInt32} {e next : Entry σ} {calls : List (Method × Bool)}
    (ticked : Ticked maxRestarts e next calls) :
    Obeys e.running calls ∧ upAfter e.running calls = next.running := by
  cases ticked with
  | skipped => exact ⟨trivial, rfl⟩
  | ticked up | restarted _ _ up | gaveUp _ up => simp [up, Obeys, upAfter, upStep]

theorem tickAll_conducts (s : Supervisor σ) : Conducts s.entries s.tickAll.2.2 s.tickAll.2.1.entries :=
  (conducts_visit (fun _ _ e apart => tickEntry_own _ _ e apart)
    (fun _ e => ticked_conducts (tickEntry_ticked _ _ _ e)) s.entries).1

theorem startFrom_before {first index : ℕ} (before : index < first) (entries : List (Entry σ)) :
    callsAt index (startFrom first entries).2.2 = [] := by
  induction entries generalizing first with
  | nil => rfl
  | cons e entries ih =>
      have other : first ≠ index := Nat.ne_of_gt before
      cases start : (Subsystem.start e.subsystem).1 with
      | ok =>
          rw [startFrom_started start]
          simpa [other] using ih (Nat.lt_succ_of_lt before)
      | error err =>
          rw [startFrom_failed start]
          simp [other]

theorem startFrom_conducts (first : ℕ) (entries : List (Entry σ)) (index : ℕ) :
    Obeys (serves entries index) (callsAt (first + index) (startFrom first entries).2.2) ∧
      upAfter (serves entries index) (callsAt (first + index) (startFrom first entries).2.2) =
        serves (startFrom first entries).2.1 index := by
  induction entries generalizing first index with
  | nil => exact ⟨trivial, rfl⟩
  | cons e entries ih =>
      cases start : (Subsystem.start e.subsystem).1 with
      | ok =>
          rw [startFrom_started start]
          cases index with
          | zero =>
              have rest := startFrom_before (Nat.lt_succ_self first) entries
              simp [rest, serves, startedEntry, Obeys, upAfter, upStep]
          | succ index =>
              have other : first ≠ first + (index + 1) := by omega
              have rest := ih (first + 1) index
              rw [Nat.succ_add_eq_add_succ] at rest
              simpa [other, serves] using rest
      | error err =>
          rw [startFrom_failed start]
          cases index with
          | zero => simp [serves, Obeys, upAfter, upStep]
          | succ index => simp [serves, Obeys, upAfter]

theorem startAll_conducts (s : Supervisor σ) : Conducts s.entries s.startAll.2.2 s.startAll.2.1.entries := by
  have started : Conducts s.entries (startFrom 0 s.entries).2.2 (startFrom 0 s.entries).2.1 := by
    intro index
    simpa only [Nat.zero_add] using startFrom_conducts 0 s.entries index
  rw [startAll]
  cases run : startFrom 0 s.entries with
  | mk result others =>
      rw [run] at started
      cases result with
      | ok => exact started
      | error err => exact started.trans (stopStartedReverse_conducts _)

theorem stopSubsystem_conducts (s : Supervisor σ) (name : String) :
    Conducts s.entries (s.stopSubsystem name).2.2 (s.stopSubsystem name).2.1.entries := by
  rw [stopSubsystem]
  split
  · next index found =>
      obtain ⟨inside, named, -⟩ := List.findIdx?_eq_some_iff_getElem.mp found
      have held : s.entries[index]? = some s.entries[index] := List.getElem?_eq_getElem inside
      rw [held]
      intro other
      have up : s.entries[index].running = true := by simp_all
      by_cases same : index = other
      · subst same
        simp [serves, up, Obeys, upAfter, upStep, inside]
      · simp [serves, same, Obeys, upAfter]
  · exact conducts_quiet fun _ => rfl

/-- The names of the entries. -/
def names (s : Supervisor σ) : List String := s.entries.map fun e => Subsystem.name e.subsystem

/-- The persisted state has the flags of the running process: wherever it has an entry for a
registered name, the last one agrees with the first subsystem of that name. -/
def Faithful (s : Supervisor σ) (state : SupervisorState) : Prop :=
  ∀ index e, s.entries[index]? = some e → Subsystem.name e.subsystem ∉ s.names.take index →
    ∀ saved, state.subsystems.reverse.find? (fun saved => saved.name = Subsystem.name e.subsystem) = some saved →
      saved.running = e.running

theorem faithful_of_running {s : Supervisor σ} {state : SupervisorState} (up : ∀ e ∈ s.entries, e.running = true)
    (saved : ∀ entry ∈ state.subsystems, entry.running = true) : s.Faithful state := by
  intro index e held _ entry found
  rw [up e (List.mem_of_getElem? held), saved entry (List.mem_reverse.mp (List.mem_of_find?_eq_some found))]

theorem mem_names_take {s : Supervisor σ} {index : ℕ} {name : String} :
    name ∈ s.names.take index ↔ ∃ j < index, ∃ e, s.entries[j]? = some e ∧ Subsystem.name e.subsystem = name := by
  rw [names, ← List.map_take, List.mem_map]
  constructor
  · rintro ⟨e, member, named⟩
    obtain ⟨j, found⟩ := List.mem_iff_getElem?.mp member
    rw [List.getElem?_take] at found
    split_ifs at found with before
    exact ⟨j, before, e, found, named⟩
  · rintro ⟨j, before, e, found, named⟩
    refine ⟨e, List.mem_iff_getElem?.mpr ⟨j, ?_⟩, named⟩
    rw [List.getElem?_take, if_pos before, found]

/-- What `restore` writes into an entry. -/
def takeOver (e : Entry σ) (saved : SubsystemStateEntry) : Entry σ :=
  { e with restarts := saved.restarts, running := saved.running }

/-- What does not depend on the counter and the flag of an entry stays. -/
theorem restoreEntry_map {β : Type} {f : Entry σ → β} (stays : ∀ e saved, f (takeOver e saved) = f e)
    (s : Supervisor σ) (saved : SubsystemStateEntry) :
    (s.restoreEntry saved).entries.map f = s.entries.map f := by
  rw [restoreEntry]
  split
  · next index found =>
      rw [List.ext_getElem?_iff]
      intro i
      rw [List.getElem?_map, List.getElem?_map, List.getElem?_modify]
      cases s.entries[i]? with
      | none => rfl
      | some e =>
          simp only [Option.map_eq_map, Option.map_some]
          split
          · exact congrArg some (stays e saved)
          · rfl
  · rfl

theorem restore_map {β : Type} {f : Entry σ → β} (stays : ∀ e saved, f (takeOver e saved) = f e)
    (s : Supervisor σ) (state : SupervisorState) : (s.restore state).entries.map f = s.entries.map f := by
  rw [restore]
  induction state.subsystems generalizing s with
  | nil => rfl
  | cons first saved ih => rw [List.foldl_cons, ih, restoreEntry_map stays]

theorem restoreEntry_names (s : Supervisor σ) (saved : SubsystemStateEntry) :
    (s.restoreEntry saved).names = s.names := restoreEntry_map (fun _ _ => rfl) s saved

theorem restore_names (s : Supervisor σ) (state : SupervisorState) : (s.restore state).names = s.names :=
  restore_map (fun _ _ => rfl) s state

theorem restoreEntry_at {s : Supervisor σ} (saved : SubsystemStateEntry) {index : ℕ} {e : Entry σ}
    (held : s.entries[index]? = some e) :
    (s.restoreEntry saved).entries[index]? = some
      (if saved.name = Subsystem.name e.subsystem ∧ Subsystem.name e.subsystem ∉ s.names.take index
        then takeOver e saved else e) := by
  obtain ⟨inside, same⟩ := List.getElem?_eq_some_iff.mp held
  rw [restoreEntry]
  split
  · next found named =>
      obtain ⟨within, taken, earlier⟩ := List.findIdx?_eq_some_iff_getElem.mp named
      rw [decide_eq_true_eq] at taken
      by_cases here : found = index
      · subst here
        have first : Subsystem.name e.subsystem ∉ s.names.take found := by
          rw [mem_names_take]
          rintro ⟨j, before, other, at_j, called⟩
          obtain ⟨reach, rfl⟩ := List.getElem?_eq_some_iff.mp at_j
          refine earlier j before (decide_eq_true ?_)
          rw [called, ← same, taken]
        rw [if_pos ⟨by rw [← taken, same], first⟩]
        simp [held, takeOver]
      · rw [if_neg]
        · simp [held, here]
        rintro ⟨called, first⟩
        refine first (mem_names_take.mpr ?_)
        have later : found < index := by
          by_contra before
          refine earlier index (by omega) (decide_eq_true ?_)
          rw [same, called]
        exact ⟨found, later, _, List.getElem?_eq_getElem within, by rw [taken, called]⟩
  · next unnamed =>
      rw [if_neg, held]
      rintro ⟨called, -⟩
      have never := List.findIdx?_eq_none_iff.mp unnamed e (List.mem_of_getElem? held)
      exact of_decide_eq_false never called.symm

/-- Of the saved entries for the name the last one decides. -/
def restored (s : Supervisor σ) (saved : List SubsystemStateEntry) (index : ℕ) (e : Entry σ) : Entry σ :=
  if Subsystem.name e.subsystem ∉ s.names.take index then
    ((saved.reverse.find? fun entry => entry.name = Subsystem.name e.subsystem).map (takeOver e)).getD e
  else e

theorem restore_at {s : Supervisor σ} (saved : List SubsystemStateEntry) {index : ℕ} {e : Entry σ}
    (held : s.entries[index]? = some e) :
    (saved.foldl restoreEntry s).entries[index]? = some (restored s saved index e) := by
  induction saved generalizing s e with
  | nil =>
      rw [List.foldl_nil, held, restored, List.reverse_nil, List.find?_nil, Option.map_none,
        Option.getD_none, ite_self]
  | cons first saved ih =>
      rw [List.foldl_cons, ih (restoreEntry_at first held), restored, restored, restoreEntry_names,
        List.reverse_cons, List.find?_append]
      by_cases early : Subsystem.name e.subsystem ∈ s.names.take index
      · simp [early]
      · by_cases named : first.name = Subsystem.name e.subsystem
        · cases found : saved.reverse.find? fun entry => entry.name = Subsystem.name e.subsystem <;>
            simp [takeOver, early, named, found]
        · simp [early, named]

theorem restore_conducts {s : Supervisor σ} {state : SupervisorState} (faithful : s.Faithful state) :
    Conducts s.entries [] (s.restore state).entries := by
  refine conducts_quiet fun index => ?_
  rw [serves, serves]
  cases held : s.entries[index]? with
  | none =>
      have absent : (s.restore state).entries[index]? = none := by
        rw [List.getElem?_eq_none_iff] at held ⊢
        have lengths := congrArg List.length (restore_names s state)
        rw [names, names, List.length_map, List.length_map] at lengths
        omega
      rw [absent]
  | some e =>
      have same : (restored s state.subsystems index e).running = e.running := by
        rw [restored]
        split
        · next first =>
            cases saved : state.subsystems.reverse.find? fun entry => entry.name = Subsystem.name e.subsystem with
            | none => rfl
            | some entry => exact faithful index e held first entry saved
        · rfl
      rw [restore, restore_at state.subsystems held, Option.map_some, Option.map_some, same]

end
end Supervisor

inductive SupervisorCall (σ : Type) where
  | register (subsystem : σ)
  | startAll
  | tickAll
  | stopSubsystem (name : String)
  | restore (state : SupervisorState)

section
variable {σ : Type} [Subsystem σ]
open Supervisor Traces

/-- The calls as steps; the answer is what happens in them. -/
def supervisorStep (s : Supervisor σ) : SupervisorCall σ → Option (List Event × Supervisor σ)
  | .register subsystem => some ([], s.register subsystem)
  | .startAll => some (s.startAll.2.2, s.startAll.2.1)
  | .tickAll => some (s.tickAll.2.2, s.tickAll.2.1)
  | .stopSubsystem name => some ((s.stopSubsystem name).2.2, (s.stopSubsystem name).2.1)
  | .restore state => some ([], s.restore state)

/-- What is restored has the flags of the running process. -/
def RestoresFaithfully (s : Supervisor σ) : SupervisorCall σ → Prop
  | .restore state => s.Faithful state
  | _ => True

theorem supervisorStep_conducts {s next : Supervisor σ} {call : SupervisorCall σ} {events : List Event}
    (faithful : RestoresFaithfully s call) (taken : supervisorStep s call = some (events, next)) :
    Conducts s.entries events next.entries := by
  cases call with
  | register subsystem =>
      cases taken
      exact register_conducts s subsystem
  | startAll =>
      cases taken
      exact startAll_conducts s
  | tickAll =>
      cases taken
      exact tickAll_conducts s
  | stopSubsystem name =>
      cases taken
      exact stopSubsystem_conducts s name
  | restore state =>
      cases taken
      exact restore_conducts faithful

/-- All that has happened in a run, in order. -/
def happened (trace : List (SupervisorCall σ × List Event)) : List Event := trace.flatMap Prod.snd

theorem run_conducts {maxRestarts : UInt32} {backoffMs : UInt64} {calls : List (SupervisorCall σ)}
    {trace : List (SupervisorCall σ × List Event)} {s : Supervisor σ}
    (along : Along supervisorStep RestoresFaithfully (.new maxRestarts backoffMs) calls)
    (ran : run supervisorStep (.new maxRestarts backoffMs) calls = some (trace, s)) :
    Conducts [] (happened trace) s.entries := by
  have start : Conducts [] (happened ([] : List (SupervisorCall σ × List Event)))
      (new maxRestarts backoffMs : Supervisor σ).entries :=
    conducts_quiet fun _ => rfl
  refine run_invariant (fun past mid call events next (before : Conducts [] (happened past) mid.entries)
    faithful taken => ?_) start along ran
  rw [happened, List.flatMap_append, List.flatMap_singleton]
  exact before.trans (supervisorStep_conducts faithful taken)

theorem filter_reverse_eq {α β : Type} (flag : α → Bool) (p : ℕ → Bool) (f : α → β) (xs : List α)
    (agree : ∀ i x, xs[i]? = some x → flag x = p i) :
    (xs.reverse.filter flag).map f =
      ((List.range xs.length).reverse.filter p).filterMap fun i => xs[i]?.map f := by
  induction xs using List.reverseRecOn with
  | nil => rfl
  | append_singleton xs x ih =>
      have last : flag x = p xs.length := agree _ x (by simp)
      have inner := ih fun i y found => agree i y (by
        rw [List.getElem?_append_left (List.getElem?_eq_some_iff.mp found).1, found])
      have front : ((List.range xs.length).reverse.filter p).filterMap (fun i => (xs ++ [x])[i]?.map f) =
          ((List.range xs.length).reverse.filter p).filterMap fun i => xs[i]?.map f := by
        refine List.filterMap_congr fun i member => ?_
        have inside : i < xs.length := by simpa using (List.mem_filter.mp member).1
        rw [List.getElem?_append_left inside]
      rw [List.length_append, List.length_singleton, List.range_succ, List.reverse_append, List.reverse_append,
        List.reverse_singleton, List.reverse_singleton, List.singleton_append, List.singleton_append,
        List.filter_cons, List.filter_cons, last]
      split
      · rw [List.map_cons, List.filterMap_cons, inner, front]
        simp
      · rw [inner, front]

/-- In a run in which only states with the flags of the process are restored, exactly the started
subsystems are driven, and they make up the shutdown order. -/
theorem only_started_driven {maxRestarts : UInt32} {backoffMs : UInt64} {calls : List (SupervisorCall σ)}
    {trace : List (SupervisorCall σ × List Event)} {s : Supervisor σ}
    (along : Along supervisorStep RestoresFaithfully (.new maxRestarts backoffMs) calls)
    (ran : run supervisorStep (.new maxRestarts backoffMs) calls = some (trace, s)) :
    Driven (happened trace) ∧
    s.shutdownOrder = ((List.range s.entries.length).reverse.filter (startedBy (happened trace))).filterMap
      fun index => s.entries[index]?.map fun e => Subsystem.name e.subsystem := by
  have conducts := run_conducts along ran
  refine ⟨driven_of_obeys fun index => (conducts index).1, ?_⟩
  refine filter_reverse_eq _ _ _ _ fun index e held => ?_
  have up := (conducts index).2
  rw [serves, serves, held] at up
  exact up.symm

end

/-- Two subsystems that never fail. -/
def vmAndNet : List Scripted := [⟨"vm", [], []⟩, ⟨"net", [], []⟩]

/-- The state of a process in which the first one was running. -/
def vmRunning : SupervisorState := ⟨[⟨"vm", 0, "Healthy", true⟩]⟩

open Supervisor Traces

theorem only_started_driven_restored :
    ∃ trace s, run supervisorStep (.new 3 0) (vmAndNet.map .register ++ [.startAll, .tickAll, .restore vmRunning,
        .stopSubsystem "net", .tickAll]) = some (trace, s) ∧
      Driven (happened trace) ∧ s.shutdownOrder = ["vm"] := by
  have ran : run supervisorStep (.new 3 0) (vmAndNet.map .register ++ [.startAll, .tickAll, .restore vmRunning,
      .stopSubsystem "net", .tickAll]) = some (_, _) := rfl
  have along : Along supervisorStep RestoresFaithfully (.new 3 0) (vmAndNet.map .register ++
      [.startAll, .tickAll, .restore vmRunning, .stopSubsystem "net", .tickAll]) := by
    refine ⟨trivial, ?_⟩
    rintro _ ⟨⟩
    refine ⟨trivial, ?_⟩
    rintro _ ⟨⟩
    refine ⟨trivial, ?_⟩
    rintro _ ⟨⟩
    refine ⟨trivial, ?_⟩
    rintro _ ⟨⟩
    refine ⟨?_, ?_⟩
    · exact faithful_of_running (by decide) (by decide)
    · rintro _ ⟨⟩
      refine ⟨trivial, ?_⟩
      rintro _ ⟨⟩
      exact ⟨trivial, fun _ _ => trivial⟩
  exact ⟨_, _, ran, (only_started_driven along ran).1, rfl⟩

/-- A flag from the disk makes the supervisor tick what this process never started. -/
theorem restored_flag_ticks_unstarted :
    (run supervisorStep (.new 3 0) [.register (⟨"vm", [], []⟩ : Scripted), .restore vmRunning, .tickAll]).map
        (fun done => happened done.1) = some [.called 0 .tick true] ∧
      ¬ Driven [.called 0 .tick true] := by
  refine ⟨rfl, fun driven => ?_⟩
  have started := driven [] 0 .tick true [] rfl (by decide)
  cases started

end KaiOs.Node
