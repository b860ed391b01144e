import Mathlib.Data.List.Rotate

/-! `runtime/src/scheduler.rs`: turns in the order of registration. A pass is the list rotated
to the cursor; sandboxes that register meanwhile put off nobody's turn for more than a round. -/
namespace KaiOs.Runtime

structure Scheduler where
  order : List String
  cursor : ℕ
  deriving DecidableEq

namespace Scheduler

def new : Scheduler := ⟨[], 0⟩

def register (s : Scheduler) (id : String) : Scheduler := { s with order := s.order ++ [id] }

def registered (s : Scheduler) : List String := s.order

def nextTurn (s : Scheduler) : Option String × Scheduler :=
  if empty : s.order = [] then (none, s)
  else
    let n := s.order.length
    let id := s.order.get ⟨s.cursor % n, Nat.mod_lt _ (List.length_pos_iff.mpr empty)⟩
    (some id, { s with cursor := (s.cursor + 1) % n })

/-- The turns of a loop over `next_turn`. -/
def turns : ℕ → Scheduler → List String × Scheduler
  | 0, s => ([], s)
  | n + 1, s =>
      let (id, s) := s.nextTurn
      let (ids, s) := turns n s
      (id.toList ++ ids, s)

def onePass (s : Scheduler) : List String × Scheduler := turns s.order.length s

/-- The cursor is in the list, or at its beginning as long as it is empty. -/
def Inside (s : Scheduler) : Prop := s.cursor < max s.order.length 1

theorem Inside.cursor_lt {s : Scheduler} (inside : s.Inside) (full : s.order ≠ []) :
    s.cursor < s.order.length := by
  have pos := List.length_pos_iff.mpr full
  unfold Inside at inside
  omega

theorem nextTurn_empty {s : Scheduler} (empty : s.order = []) : s.nextTurn = (none, s) := dif_pos empty

theorem nextTurn_full {s : Scheduler} (inside : s.Inside) (full : s.order ≠ []) :
    s.nextTurn = (s.order[s.cursor]?, { s with cursor := (s.cursor + 1) % s.order.length }) := by
  have bound := inside.cursor_lt full
  rw [nextTurn, dif_neg full]
  simp only [Nat.mod_eq_of_lt bound, List.getElem?_eq_getElem bound, List.get_eq_getElem]

theorem nextTurn_order (s : Scheduler) : s.nextTurn.2.order = s.order := by
  unfold nextTurn
  split <;> rfl

theorem inside_new : new.Inside := Nat.zero_lt_one

theorem Inside.register {s : Scheduler} (inside : s.Inside) (id : String) : (s.register id).Inside := by
  have length : (s.register id).order.length = s.order.length + 1 := List.length_append
  have cursor : (s.register id).cursor = s.cursor := rfl
  unfold Inside at *
  omega

theorem Inside.nextTurn {s : Scheduler} (inside : s.Inside) : s.nextTurn.2.Inside := by
  by_cases full : s.order = []
  · rw [nextTurn_empty full]
    exact inside
  · rw [nextTurn_full inside full]
    have pos := List.length_pos_iff.mpr full
    exact Nat.lt_of_lt_of_le (Nat.mod_lt _ pos) (Nat.le_max_left _ _)

end Scheduler

inductive SchedulerCall where
  | register (id : String)
  | nextTurn
  deriving DecidableEq

namespace Scheduler
open SchedulerCall

/-- The answer to a `next_turn` call, and the scheduler behind the call. -/
def step (s : Scheduler) : SchedulerCall → List String × Scheduler
  | .register id => ([], s.register id)
  | .nextTurn => (s.nextTurn.1.toList, s.nextTurn.2)

/-- The turns given by a list of calls, one after the other, and the scheduler behind them. -/
def run (s : Scheduler) : List SchedulerCall → List String × Scheduler
  | [] => ([], s)
  | call :: calls =>
      let (ids, s) := s.step call
      let (more, s) := s.run calls
      (ids ++ more, s)

theorem run_cons (s : Scheduler) (call : SchedulerCall) (calls : List SchedulerCall) :
    s.run (call :: calls) =
      ((s.step call).1 ++ ((s.step call).2.run calls).1, ((s.step call).2.run calls).2) := rfl

/-- What the calls register, repetitions included. -/
def registrations : List SchedulerCall → List String
  | [] => []
  | .register id :: calls => id :: registrations calls
  | .nextTurn :: calls => registrations calls

theorem Inside.step {s : Scheduler} (inside : s.Inside) (call : SchedulerCall) :
    (s.step call).2.Inside := by
  cases call with
  | register id => exact inside.register id
  | nextTurn => exact inside.nextTurn

theorem Inside.run {s : Scheduler} (inside : s.Inside) (calls : List SchedulerCall) :
    (s.run calls).2.Inside := by
  induction calls generalizing s with
  | nil => exact inside
  | cons call calls ih => exact ih (inside.step call)

theorem order_run (s : Scheduler) (calls : List SchedulerCall) :
    (s.run calls).2.order = s.order ++ registrations calls := by
  induction calls generalizing s with
  | nil => exact (List.append_nil _).symm
  | cons call calls ih =>
      rw [run_cons, ih]
      cases call with
      | register id => exact List.append_assoc _ _ _
      | nextTurn => rw [step, nextTurn_order, registrations]

/-- The other turns before the one of the entry at an index. -/
def wait (s : Scheduler) (index : ℕ) : ℕ :=
  if s.cursor ≤ index then index - s.cursor else s.order.length - s.cursor + index

theorem wait_lt {s : Scheduler} {index : ℕ} (inside : s.Inside) (listed : index < s.order.length) :
    s.wait index < s.order.length := by
  have bound := inside.cursor_lt (List.ne_nil_of_length_pos (Nat.zero_lt_of_lt listed))
  unfold wait
  split <;> omega

theorem wait_register {s : Scheduler} {index : ℕ} (inside : s.Inside)
    (listed : index < s.order.length) (id : String) :
    (s.register id).wait index ≤ s.wait index + 1 := by
  have bound := inside.cursor_lt (List.ne_nil_of_length_pos (Nat.zero_lt_of_lt listed))
  have length : (s.register id).order.length = s.order.length + 1 := List.length_append
  have cursor : (s.register id).cursor = s.cursor := rfl
  unfold wait
  rw [length, cursor]
  split <;> omega

theorem wait_nextTurn {s : Scheduler} {index : ℕ} (inside : s.Inside) (listed : index < s.order.length)
    (other : s.cursor ≠ index) : s.nextTurn.2.wait index + 1 = s.wait index := by
  have full := List.ne_nil_of_length_pos (Nat.zero_lt_of_lt listed)
  have bound := inside.cursor_lt full
  rw [nextTurn_full inside full, wait, wait]
  dsimp only
  by_cases last : s.cursor + 1 = s.order.length
  · rw [last, Nat.mod_self]
    split_ifs <;> omega
  · rw [Nat.mod_eq_of_lt (by omega)]
    split_ifs <;> omega

theorem turn_of_wait {s : Scheduler} {index : ℕ} {id : String} (inside : s.Inside)
    (held : s.order[index]? = some id) {calls : List SchedulerCall}
    (enough : s.wait index + (registrations calls).length < calls.count .nextTurn) :
    id ∈ (s.run calls).1 := by
  induction calls generalizing s with
  | nil => exact absurd enough (Nat.not_lt_zero _)
  | cons call calls ih =>
      have listed := (List.getElem?_eq_some_iff.mp held).1
      rw [run_cons, List.mem_append]
      cases call with
      | register other =>
          rw [registrations, List.length_cons, List.count_cons_of_ne (by simp)] at enough
          have later := wait_register inside listed other
          have still : (s.register other).order[index]? = some id := by
            rw [register, List.getElem?_append_left listed, held]
          have soon : (s.register other).wait index + (registrations calls).length <
              calls.count .nextTurn := by omega
          exact .inr (ih (inside.register other) still soon)
      | nextTurn =>
          rw [registrations, List.count_cons_self] at enough
          have full := List.ne_nil_of_length_pos (Nat.zero_lt_of_lt listed)
          by_cases here : s.cursor = index
          · left
            rw [step, nextTurn_full inside full, here, held]
            exact List.mem_singleton_self id
          · have closer := wait_nextTurn inside listed here
            have still : s.nextTurn.2.order[index]? = some id := by rw [nextTurn_order, held]
            have soon : s.nextTurn.2.wait index + (registrations calls).length <
                calls.count .nextTurn := by omega
            exact .inr (ih inside.nextTurn still soon)

theorem turns_given {s : Scheduler} (inside : s.Inside) (full : s.order ≠ []) (calls : List SchedulerCall) :
    (s.run calls).1.length = calls.count .nextTurn := by
  induction calls generalizing s with
  | nil => rfl
  | cons call calls ih =>
      rw [run_cons, List.length_append]
      cases call with
      | register id =>
          rw [List.count_cons_of_ne (by simp), step, ih (inside.register id) (by simp [register])]
          exact Nat.zero_add _
      | nextTurn =>
          have still : s.nextTurn.2.order ≠ [] := by rwa [nextTurn_order]
          have bound := inside.cursor_lt full
          rw [List.count_cons_self, step, ih inside.nextTurn still, nextTurn_full inside full,
            List.getElem?_eq_getElem bound]
          exact Nat.add_comm _ _

/-- As many turns as there are entries in the end reach every sandbox that was registered in the
beginning; no turn is left out, and the cursor stays inside. -/
theorem round_robin_never_starves (begun calls : List SchedulerCall) :
    ((new.run begun).2.order ≠ [] → (new.run begun).2.cursor < (new.run begun).2.order.length ∧
      (new.run begun).2.nextTurn.1 = (new.run begun).2.order[(new.run begun).2.cursor]? ∧
      ((new.run begun).2.run calls).1.length = calls.count .nextTurn) ∧
    (calls.count .nextTurn = ((new.run begun).2.run calls).2.registered.length →
      ∀ id ∈ (new.run begun).2.registered, id ∈ ((new.run begun).2.run calls).1) := by
  have inside : (new.run begun).2.Inside := inside_new.run begun
  constructor
  · intro full
    refine ⟨inside.cursor_lt full, ?_, turns_given inside full calls⟩
    rw [nextTurn_full inside full]
  · intro enough id member
    obtain ⟨index, held⟩ := List.mem_iff_getElem?.mp member
    have soon := wait_lt inside (List.getElem?_eq_some_iff.mp held).1
    refine turn_of_wait inside held ?_
    rw [enough, registered, order_run, List.length_append]
    exact Nat.add_lt_add_right soon _

/-- A third sandbox registers between the turns of the first two. -/
theorem round_robin_reaches_all :
    ∀ id ∈ ["a", "b"], id ∈ ((new.run [.register "a", .register "b", .nextTurn]).2.run
      [.register "c", .nextTurn, .nextTurn, .nextTurn]).1 :=
  (round_robin_never_starves [.register "a", .register "b", .nextTurn]
    [.register "c", .nextTurn, .nextTurn, .nextTurn]).2 (by decide)

section Pass

/-- The turns of a loop walk around the ring. -/
theorem turns_full {s : Scheduler} (inside : s.Inside) (full : s.order ≠ []) (n : ℕ) :
    (turns n s).2 = { s with cursor := (s.cursor + n) % s.order.length } ∧
      (turns n s).1.length = n ∧
      ∀ i < n, (turns n s).1[i]? = s.order[(s.cursor + i) % s.order.length]? := by
  induction n generalizing s with
  | zero =>
      rw [Nat.add_zero, Nat.mod_eq_of_lt (inside.cursor_lt full)]
      exact ⟨rfl, rfl, fun i none => absurd none (Nat.not_lt_zero i)⟩
  | succ n ih =>
      have bound := inside.cursor_lt full
      have still : s.nextTurn.2.order ≠ [] := by rwa [nextTurn_order]
      obtain ⟨last, length, given⟩ := ih inside.nextTurn still
      rw [nextTurn_full inside full] at last length given
      dsimp only at last length given
      have around (i : ℕ) : ((s.cursor + 1) % s.order.length + i) % s.order.length =
          (s.cursor + (i + 1)) % s.order.length := by
        rw [Nat.mod_add_mod, Nat.add_assoc, Nat.add_comm 1 i]
      rw [turns, nextTurn_full inside full, List.getElem?_eq_getElem bound]
      dsimp only [Option.toList_some, List.singleton_append]
      refine ⟨?_, ?_, ?_⟩
      · rw [last, around]
      · rw [List.length_cons, length]
      · intro i small
        cases i with
        | zero =>
            rw [List.getElem?_cons_zero, Nat.add_zero]
            simp only [Nat.mod_eq_of_lt bound, List.getElem?_eq_getElem bound]
        | succ i => rw [List.getElem?_cons_succ, given i (by omega), around]

theorem onePass_eq {s : Scheduler} (inside : s.Inside) : s.onePass = (s.order.rotate s.cursor, s) := by
  by_cases full : s.order = []
  · rw [onePass, full, List.length_nil, turns, List.rotate_nil]
  · have bound := inside.cursor_lt full
    obtain ⟨last, length, given⟩ := turns_full inside full s.order.length
    rw [Nat.add_mod_right, Nat.mod_eq_of_lt bound] at last
    refine Prod.ext ?_ last
    apply List.ext_getElem?
    intro i
    by_cases small : i < s.order.length
    · rw [onePass, given i small, List.getElem?_rotate small, Nat.add_comm]
    · rw [List.getElem?_eq_none (by rw [onePass, length]; omega),
        List.getElem?_eq_none (by rw [List.length_rotate]; omega)]

/-- A pass gives as many turns to a sandbox as it has registrations, so one to each exactly if
no id is registered twice; the next pass is the same. -/
theorem one_pass_once_iff (calls : List SchedulerCall) :
    (new.run calls).2.onePass.1.Perm (registrations calls) ∧
    (new.run calls).2.onePass.2.onePass.1 = (new.run calls).2.onePass.1 ∧
    ((∀ id ∈ registrations calls, (new.run calls).2.onePass.1.count id = 1) ↔
      (registrations calls).Nodup) := by
  have order : (new.run calls).2.order = registrations calls := order_run new calls
  rw [onePass_eq (inside_new.run calls), order]
  have turned : ((registrations calls).rotate (new.run calls).2.cursor).Perm (registrations calls) :=
    List.rotate_perm _ _
  refine ⟨turned, by rw [onePass_eq (inside_new.run calls), order], ?_⟩
  constructor
  · intro once
    rw [List.nodup_iff_count_eq_one]
    intro id member
    rw [← once id member, turned.count_eq]
  · intro distinct id member
    rw [turned.count_eq]
    exact List.count_eq_one_of_mem distinct member

/-- One sandbox is registered twice and another one once. -/
theorem one_pass_gives_two_turns :
    (new.run [.register "a", .register "b", .register "a"]).2.onePass.1 = ["a", "b", "a"] := by
  decide

end Pass

end Scheduler
end KaiOs.Runtime
