import KaiOs.Node.Driven
import KaiOs.Node.Lifecycle
import KaiOs.State.WalJson

/-! What a supervisor persists of itself, and what a supervisor that restores it looks like. -/
namespace KaiOs.Node

/-- `Debug` -/
def HealthStatus.text : HealthStatus → String
  | .healthy => "Healthy"
  | .degraded => "Degraded"
  | .unhealthy => "Unhealthy"

namespace Supervisor
variable {σ : Type} [Subsystem σ]

def restartCount (s : Supervisor σ) (name : String) : Option UInt32 :=
  (s.entries.find? fun e => Subsystem.name e.subsystem = name).map (·.restarts)

def savedEntry (e : Entry σ) : SubsystemStateEntry :=
  ⟨Subsystem.name e.subsystem, e.restarts, e.lastHealth.text, e.running⟩

def snapshot (s : Supervisor σ) : SupervisorState := ⟨s.entries.map savedEntry⟩

/-- The text that `persist_state` writes to its file. -/
def persistState (c : Codec SupervisorState) (s : Supervisor σ) : String := c.text s.snapshot

/-- The state in a file; none if it cannot be read or parsed. -/
def loadState (c : Codec SupervisorState) (file : Option String) : Option SupervisorState := file.bind c.parse

theorem loadState_persistState {c : Codec SupervisorState} (trip : c.RoundTrips) (s : Supervisor σ) :
    loadState c (some (s.persistState c)) = some s.snapshot := trip s.snapshot

/-- Subsystems that share their name with another one have never been restarted. -/
def RepeatsUnused (s : Supervisor σ) : Prop :=
  ∀ (i j : ℕ) (e other : Entry σ), s.entries[i]? = some e → s.entries[j]? = some other → i ≠ j →
    Subsystem.name e.subsystem = Subsystem.name other.subsystem → e.restarts = 0

theorem repeatsUnused_of_nodup {s : Supervisor σ} (distinct : s.names.Nodup) : s.RepeatsUnused := by
  intro i j e other held at_j apart called
  have at_i : s.names[i]? = some (Subsystem.name e.subsystem) := by
    rw [names, List.getElem?_map, held, Option.map_some]
  have same : s.names[j]? = some (Subsystem.name e.subsystem) := by
    rw [names, List.getElem?_map, at_j, Option.map_some, called]
  have inside := (List.getElem?_eq_some_iff.mp at_i).1
  exact absurd ((List.getElem?_inj inside distinct).mp (at_i.trans same.symm)) apart

theorem restore_overallHealth (s : Supervisor σ) (state : SupervisorState) :
    (s.restore state).overallHealth = s.overallHealth := by
  rw [overallHealth, overallHealth, restore_map fun _ _ => rfl]

theorem find_reverse {α : Type} {p : α → Bool} {xs : List α} {i : ℕ} {x : α} (held : xs[i]? = some x)
    (hit : p x = true) :
    ∃ (last : ℕ) (y : α), xs[last]? = some y ∧ p y = true ∧ xs.reverse.find? p = some y ∧
      ∀ (j : ℕ) (z : α), xs[j]? = some z → p z = true → j ≤ last := by
  induction xs using List.reverseRecOn generalizing i x with
  | nil => cases held
  | append_singleton xs a ih =>
      rw [List.reverse_append, List.reverse_singleton, List.singleton_append]
      by_cases here : p a = true
      · refine ⟨xs.length, a, by simp, here, List.find?_cons_of_pos here, fun j z found _ => ?_⟩
        have inside := (List.getElem?_eq_some_iff.mp found).1
        rw [List.length_append, List.length_singleton] at inside
        omega
      · have front (j : ℕ) (z : α) (found : (xs ++ [a])[j]? = some z) (matching : p z = true) :
            xs[j]? = some z := by
          rw [List.getElem?_append] at found
          split at found
          · exact found
          · obtain rfl := List.mem_singleton.mp (List.mem_of_getElem? found)
            exact absurd matching here
        obtain ⟨last, y, found, matching, first, latest⟩ := ih (front i x held hit) hit
        refine ⟨last, y, ?_, matching, ?_, fun j z there good => latest j z (front j z there good) good⟩
        · rw [List.getElem?_append_left (List.getElem?_eq_some_iff.mp found).1, found]
        · rw [List.find?_cons_of_neg here, first]

section
variable {s fresh : Supervisor σ} (zero : ∀ e ∈ fresh.entries, e.restarts = 0) (same : fresh.names = s.names)
include zero same

/-- The first subsystem of a name takes over the counter of the last one, all others keep none. -/
theorem restore_snapshot_at {i : ℕ} {e : Entry σ} (held : s.entries[i]? = some e) :
    ∃ (last : ℕ) (d : Entry σ), s.entries[last]? = some d ∧
      Subsystem.name d.subsystem = Subsystem.name e.subsystem ∧
      (∀ (j : ℕ) (other : Entry σ), s.entries[j]? = some other →
        Subsystem.name other.subsystem = Subsystem.name e.subsystem → j ≤ last) ∧
      (fresh.restore s.snapshot).entries[i]?.map (·.restarts) =
        some (if Subsystem.name e.subsystem ∈ s.names.take i then 0 else d.restarts) := by
  have named : fresh.entries[i]?.map (fun e => Subsystem.name e.subsystem) =
      some (Subsystem.name e.subsystem) := by
    have names := congrArg (fun names : List String => names[i]?) same
    simpa only [names, Supervisor.names, List.getElem?_map, held, Option.map_some] using names
  obtain ⟨f, there, alike⟩ := Option.map_eq_some_iff.mp named
  obtain ⟨last, d, found, hit, first, latest⟩ :=
    find_reverse (p := fun other => Subsystem.name other.subsystem = Subsystem.name e.subsystem) held
      (decide_eq_true rfl)
  refine ⟨last, d, found, of_decide_eq_true hit, fun j other at_j called => latest j other at_j
    (decide_eq_true called), ?_⟩
  have saved : s.snapshot.subsystems.reverse.find? (fun entry => entry.name = Subsystem.name e.subsystem) =
      some (savedEntry d) := by
    rw [snapshot, ← List.map_reverse, List.find?_map]
    exact congrArg (Option.map savedEntry) first
  rw [restore, restore_at _ there, Option.map_some, restored, alike, same, saved]
  by_cases early : Subsystem.name e.subsystem ∈ s.names.take i
  · rw [if_neg (not_not.mpr early), if_pos early, zero f (List.mem_of_getElem? there)]
  · rw [if_pos early, if_neg early]
    rfl

theorem restore_restarts_iff :
    (fresh.restore s.snapshot).entries.map (·.restarts) = s.entries.map (·.restarts) ↔ s.RepeatsUnused := by
  have pointwise : (fresh.restore s.snapshot).entries.map (·.restarts) = s.entries.map (·.restarts) ↔
      ∀ (i : ℕ) (e : Entry σ), s.entries[i]? = some e →
        (fresh.restore s.snapshot).entries[i]?.map (·.restarts) = some e.restarts := by
    rw [List.ext_getElem?_iff]
    refine forall_congr' fun i => ?_
    rw [List.getElem?_map, List.getElem?_map]
    cases held : s.entries[i]? with
    | some e => simp
    | none =>
        have lengths := congrArg List.length ((restore_names fresh s.snapshot).trans same)
        rw [names, names, List.length_map, List.length_map] at lengths
        rw [List.getElem?_eq_none_iff] at held
        simp [lengths, held]
  rw [pointwise]
  constructor
  · intro counts
    -- Behind its first entry a name has no restarts, so the last entry of a repeated name has none.
    have later (i : ℕ) (e : Entry σ) (held : s.entries[i]? = some e)
        (early : Subsystem.name e.subsystem ∈ s.names.take i) : e.restarts = 0 := by
      obtain ⟨last, d, -, -, -, counter⟩ := restore_snapshot_at zero same held
      rw [counts i e held, if_pos early] at counter
      exact Option.some.inj counter
    intro i j e other held at_j apart called
    by_cases early : Subsystem.name e.subsystem ∈ s.names.take i
    · exact later i e held early
    · obtain ⟨last, d, found, named, latest, counter⟩ := restore_snapshot_at zero same held
      rw [counts i e held, if_neg early] at counter
      have beyond : i < last := by
        have reach := latest j other at_j called.symm
        have start := latest i e held rfl
        by_contra
        refine early (mem_names_take.mpr ⟨j, ?_, other, at_j, called.symm⟩)
        omega
      rw [Option.some.inj counter]
      exact later last d found (mem_names_take.mpr ⟨i, beyond, e, held, named.symm⟩)
  · intro unused i e held
    obtain ⟨last, d, found, named, -, counter⟩ := restore_snapshot_at zero same held
    rw [counter]
    split
    · next early =>
        obtain ⟨j, before, other, at_j, called⟩ := mem_names_take.mp early
        rw [unused i j e other held at_j (Nat.ne_of_gt before) called.symm]
    · by_cases here : i = last
      · subst here
        rw [held] at found
        cases found
        rfl
      · rw [unused i last e d held found here named.symm,
          unused last i d e found held (Ne.symm here) named]

end

/-- A fresh supervisor with subsystems of the same names takes over every counter and looks at least
as bad as the persisted one exactly if that one was healthy and no repeated name had restarts. -/
theorem recovery_as_bad_iff {c : Codec SupervisorState} (trip : c.RoundTrips) (s : Supervisor σ)
    (maxRestarts : UInt32) (backoffMs : UInt64) {subsystems : List σ}
    (same : subsystems.map Subsystem.name = s.names) :
    ∃ state, loadState c (some (s.persistState c)) = some state ∧
      (((registered maxRestarts backoffMs subsystems).restore state).entries.map (·.restarts) =
          s.entries.map (·.restarts) ∧
        ((registered maxRestarts backoffMs subsystems).restore state).overallHealth.worst s.overallHealth =
          ((registered maxRestarts backoffMs subsystems).restore state).overallHealth ↔
      s.overallHealth = .healthy ∧ s.RepeatsUnused) := by
  have entries := registered_entries maxRestarts backoffMs subsystems
  have zero : ∀ e ∈ (registered maxRestarts backoffMs subsystems).entries, e.restarts = 0 := by
    rw [entries]
    exact List.forall_mem_map.mpr fun _ _ => rfl
  have names : (registered maxRestarts backoffMs subsystems).names = s.names := by
    rw [Supervisor.names, entries, List.map_map]
    exact same
  have well : (registered maxRestarts backoffMs subsystems).overallHealth = .healthy := by
    rw [overallHealth, entries, overall_eq_healthy, List.map_map]
    exact List.forall_mem_map.mpr fun _ _ => rfl
  have compared : HealthStatus.healthy.worst s.overallHealth = .healthy ↔ s.overallHealth = .healthy := by
    rw [worst_eq_healthy, and_iff_right rfl]
  refine ⟨s.snapshot, loadState_persistState trip s, ?_⟩
  rw [restore_restarts_iff zero names, restore_overallHealth, well, compared, and_comm]

end Supervisor

section Json
open Format

def boolFormat : Format Bool :=
  (either (literal "true") (literal "false") (fun _ rest => by
    simp only [literal, strip_apart (by decide : apart "true".toList "false".toList = true), Option.map_none])).map
    (fun side => side.isLeft) (fun b => if b then .inl () else .inr ()) (fun b => by cases b <;> rfl)

def stateEntryFormat : Format SubsystemStateEntry :=
  (between "\x7b\n      \"name\": " (string.seq (between ",\n      \"restarts\": "
    (((decimal ',' comma_no_digit).map UInt32.ofNat UInt32.toNat (fun _ => UInt32.ofNat_toNat)).seq
      (between "\n      \"last_health\": " (string.seq
        (between ",\n      \"running\": " boolFormat "")) "")) "")) "\n    \x7d").map
    (fun p => ⟨p.1, p.2.1, p.2.2.1, p.2.2.2⟩)
    (fun e => (e.name, e.restarts, e.lastHealth, e.running)) (fun _ => rfl)

def stateFormat : Format SupervisorState :=
  (between "\x7b\n  \"subsystems\": "
    (list stateEntryFormat "[]" "[\n    " ",\n    " "\n  ]" (by decide) (by decide)) "\n\x7d").map
    (fun subsystems => ⟨subsystems⟩) (·.subsystems) (fun _ => rfl)

example : stateFormat.codec.text ⟨[⟨"p2p", 1, "Healthy", true⟩]⟩ =
    "\x7b\n  \"subsystems\": [\n    \x7b\n      \"name\": \"p2p\",\n      \"restarts\": 1,\n" ++
      "      \"last_health\": \"Healthy\",\n      \"running\": true\n    \x7d\n  ]\n\x7d" := by
  decide +kernel

end Json

open Supervisor

/-- Two stubs, the first one with failures to come. -/
def twoStubs (failures : UInt32) : List StubSubsystem :=
  [⟨"consensus", 0, failures, false, 0⟩, ⟨"p2p", 0, 0, false, 0⟩]

/-- Their supervisor behind the boot and three ticks. -/
def afterThree (failures : UInt32) : Supervisor StubSubsystem :=
  ((registered 2 0 (twoStubs failures)).startAll.2.1.ticks 3).1

theorem recovery_as_bad_restarted :
    ∃ state, loadState stateFormat.codec (some ((afterThree 1).persistState stateFormat.codec)) = some state ∧
      ((registered 2 0 (twoStubs 0)).restore state).entries.map (·.restarts) =
        (afterThree 1).entries.map (·.restarts) ∧
      ((registered 2 0 (twoStubs 0)).restore state).overallHealth.worst (afterThree 1).overallHealth =
        ((registered 2 0 (twoStubs 0)).restore state).overallHealth := by
  have same : (twoStubs 0).map Subsystem.name = (afterThree 1).names := by decide
  obtain ⟨state, loaded, iff⟩ := recovery_as_bad_iff Format.codec_roundTrips (afterThree 1) 2 0 same
  have unused : (afterThree 1).RepeatsUnused := repeatsUnused_of_nodup (by decide)
  exact ⟨state, loaded, iff.mpr ⟨by decide, unused⟩⟩

/-- A given-up subsystem is forgotten with the process. -/
theorem recovery_looks_healthy :
    (afterThree 3).overallHealth = .unhealthy ∧
    loadState stateFormat.codec (some ((afterThree 3).persistState stateFormat.codec)) =
      some (afterThree 3).snapshot ∧
    ((registered 2 0 (twoStubs 0)).restore (afterThree 3).snapshot).overallHealth = .healthy :=
  ⟨by decide, loadState_persistState Format.codec_roundTrips _, by decide⟩

end KaiOs.Node
