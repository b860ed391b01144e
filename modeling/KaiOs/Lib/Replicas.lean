import Mathlib.Data.List.Basic
import Mathlib.Data.List.Induction
import Mathlib.Data.Set.Insert

/-! Registers with one writer each, of which every party keeps a copy. Copies are sent around and come in in any
order, any number of times or never; of two the later one is kept, on a tie the one that is there. -/
namespace Replicas

/-- A column is what a party holds of one writer's registers. -/
structure Net (ι κ ε : Type*) where
  copies : ι → ι → κ → Option ε
  sent : Set (ι × (κ → Option ε))

inductive Act (ι κ ε : Type*) where
  | write (writer : ι) (key : κ) (entry : ε)
  | send (holder writer : ι)
  | deliver (holder writer : ι) (column : κ → Option ε)

variable {ι κ ε : Type*} (time : ε → ℕ)

/-- The copy that is there, and the one that comes in. -/
def keep : Option ε → Option ε → Option ε
  | some a, some b => if time a < time b then some b else some a
  | some a, none => some a
  | none, other => other

namespace Net
variable [DecidableEq ι] [DecidableEq κ]

def init : Net ι κ ε := ⟨fun _ _ _ => none, ∅⟩

def write (n : Net ι κ ε) (writer : ι) (key : κ) (entry : ε) : Net ι κ ε :=
  { n with copies := fun i w k => if i = writer ∧ w = writer ∧ k = key then some entry else n.copies i w k }

def send (n : Net ι κ ε) (holder writer : ι) : Net ι κ ε :=
  { n with sent := insert (writer, n.copies holder writer) n.sent }

def deliver (n : Net ι κ ε) (holder writer : ι) (column : κ → Option ε) : Net ι κ ε :=
  { n with copies := fun i w k =>
      if i = holder ∧ w = writer then keep time (n.copies i w k) (column k) else n.copies i w k }

end Net

section
variable [DecidableEq ι] [DecidableEq κ]

inductive Step (n : Net ι κ ε) : Act ι κ ε → Net ι κ ε → Prop
  | write (writer : ι) (key : κ) (entry : ε) : Step n (.write writer key entry) (n.write writer key entry)
  | send (holder writer : ι) : Step n (.send holder writer) (n.send holder writer)
  | deliver (holder writer : ι) (column : κ → Option ε) (known : (writer, column) ∈ n.sent) :
      Step n (.deliver holder writer column) (n.deliver time holder writer column)

inductive Run (n : Net ι κ ε) : List (Act ι κ ε) → Net ι κ ε → Prop
  | nil : Run n [] n
  | concat {acts : List (Act ι κ ε)} {m last : Net ι κ ε} {a : Act ι κ ε} (run : Run n acts m)
      (step : Step time m a last) : Run n (acts ++ [a]) last

def written (w : ι) (k : κ) : Act ι κ ε → Option ε
  | .write writer key entry => if w = writer ∧ k = key then some entry else none
  | _ => none

/-- What a writer has put into a register, the first entry first. -/
def writes (acts : List (Act ι κ ε)) (w : ι) (k : κ) : List ε := acts.filterMap (written w k)

/-- The times of a writer's entries do not fall. -/
def Clocked (acts : List (Act ι κ ε)) (w : ι) : Prop :=
  ∀ k, (writes acts w k).Pairwise fun a b => time a ≤ time b

/-- A writer puts no two entries of one time into a register. -/
def Decides (acts : List (Act ι κ ε)) (w : ι) : Prop :=
  ∀ k, ∀ a ∈ writes acts w k, ∀ b ∈ writes acts w k, time a = time b → a = b

/-- Nothing is held or sent that was not written. -/
structure Authentic (acts : List (Act ι κ ε)) (n : Net ι κ ε) : Prop where
  copies : ∀ i w k e, n.copies i w k = some e → e ∈ writes acts w k
  sent : ∀ w column, (w, column) ∈ n.sent → ∀ k e, column k = some e → e ∈ writes acts w k

end

theorem keep_cases (x y : Option ε) : keep time x y = x ∨ keep time x y = y := by
  cases x with
  | none => exact .inr rfl
  | some a =>
      cases y with
      | none => exact .inl rfl
      | some b =>
          rw [keep]
          split_ifs
          · exact .inr rfl
          · exact .inl rfl

theorem keep_le {x y : Option ε} {a : ε} (held : x = some a) :
    ∃ b, keep time x y = some b ∧ time a ≤ time b := by
  subst held
  cases y with
  | none => exact ⟨a, rfl, Nat.le_refl _⟩
  | some b =>
      rw [keep]
      split_ifs with later
      · exact ⟨b, rfl, Nat.le_of_lt later⟩
      · exact ⟨a, rfl, Nat.le_refl _⟩

section
variable {time}

/-- What is not later leaves the copy as it is. -/
theorem keep_of_old {x y : Option ε} (old : ∀ b ∈ y, ∃ a ∈ x, time b ≤ time a) : keep time x y = x := by
  cases y with
  | none => cases x <;> rfl
  | some b =>
      obtain ⟨a, held, late⟩ := old b rfl
      cases held
      rw [keep, if_neg (Nat.not_lt_of_le late)]

/-- A latest entry replaces the others, if its time tells it. -/
theorem keep_of_latest {x y : Option ε}
    (latest : ∀ a ∈ x, ∃ b ∈ y, time a ≤ time b ∧ (time a = time b → a = b)) : keep time x y = y := by
  cases x with
  | none => rfl
  | some a =>
      obtain ⟨b, new, late, told⟩ := latest a rfl
      cases new
      rw [keep]
      split_ifs with later
      · rfl
      · rw [told (Nat.le_antisymm late (Nat.le_of_not_lt later))]

end

section
variable [DecidableEq ι] [DecidableEq κ] {time} {acts front back : List (Act ι κ ε)} {n m last : Net ι κ ε}

theorem writes_append (acts more : List (Act ι κ ε)) (w : ι) (k : κ) :
    writes (acts ++ more) w k = writes acts w k ++ writes more w k := List.filterMap_append

theorem writes_quiet {w : ι} (quiet : ∀ k e, .write w k e ∉ acts) (k : κ) : writes acts w k = [] := by
  rw [writes, List.filterMap_eq_nil_iff]
  intro a member
  cases a with
  | write writer key entry =>
      rw [written, if_neg]
      rintro ⟨rfl, rfl⟩
      exact quiet k entry member
  | send | deliver => rfl

theorem Run.append (run : Run time n front m) (rest : Run time m back last) : Run time n (front ++ back) last := by
  induction rest with
  | nil => rwa [List.append_nil]
  | concat _ step ih =>
      rw [← List.append_assoc]
      exact .concat ih step

theorem Authentic.step {a : Act ι κ ε} (held : Authentic acts n) (step : Step time n a m) :
    Authentic (acts ++ [a]) m := by
  have before {w : ι} {k : κ} {e : ε} (old : e ∈ writes acts w k) : e ∈ writes (acts ++ [a]) w k := by
    rw [writes_append]
    exact List.mem_append_left _ old
  cases step with
  | write writer key entry =>
      refine ⟨fun i w k e found => ?_, fun w column known k e found => before (held.sent w column known k e found)⟩
      simp only [Net.write] at found
      split_ifs at found with own
      · obtain ⟨-, rfl, rfl⟩ := own
        cases found
        rw [writes_append]
        exact List.mem_append_right _ (by simp [writes, written])
      · exact before (held.copies i w k e found)
  | send holder writer =>
      refine ⟨fun i w k e found => before (held.copies i w k e found), fun w column known k e found => ?_⟩
      obtain same | old := Set.mem_insert_iff.mp known
      · cases same
        exact before (held.copies holder writer k e found)
      · exact before (held.sent w column old k e found)
  | deliver holder writer column known =>
      refine ⟨fun i w k e found => ?_, fun w column known k e found => before (held.sent w column known k e found)⟩
      simp only [Net.deliver] at found
      split_ifs at found with here
      · obtain ⟨rfl, rfl⟩ := here
        obtain stays | comes := keep_cases time (n.copies i w k) (column k)
        · exact before (held.copies i w k e (stays.symm.trans found))
        · exact before (held.sent w column known k e (comes.symm.trans found))
      · exact before (held.copies i w k e found)

/-- No party invents an entry, whatever way it has come. -/
theorem Run.authentic (run : Run time .init acts n) : Authentic acts n := by
  induction run with
  | nil =>
      refine ⟨fun i w k e found => ?_, fun w column known => ?_⟩
      · cases found
      · cases known
  | concat _ step ih => exact ih.step step

theorem latest_of_clocked {w : ι} (clocked : Clocked time acts w) {k : κ} {e : ε} (member : e ∈ writes acts w k) :
    ∃ top ∈ (writes acts w k).getLast?, time e ≤ time top := by
  have ordered := clocked k
  generalize writes acts w k = entries at member ordered ⊢
  induction entries using List.reverseRecOn with
  | nil => cases member
  | append_singleton earlier top _ =>
      rw [List.getLast?_concat]
      refine ⟨top, rfl, ?_⟩
      obtain old | new := List.mem_append.mp member
      · exact (List.pairwise_append.mp ordered).2.2 e old top List.mem_cons_self
      · rw [List.mem_singleton.mp new]

theorem Clocked.earlier {w : ι} (clocked : Clocked time (front ++ back) w) : Clocked time front w := by
  intro k
  have ordered := clocked k
  rw [writes_append] at ordered
  exact (List.pairwise_append.mp ordered).1

/-- A writer whose clock does not fall has what it wrote last, whatever comes back to it. -/
theorem Run.own (run : Run time .init acts n) {w : ι} (clocked : Clocked time acts w) (k : κ) :
    n.copies w w k = (writes acts w k).getLast? := by
  induction run with
  | nil => rfl
  | @concat acts m last a run step ih =>
      have before := clocked.earlier
      rw [writes_append]
      cases step with
      | write writer key entry =>
          by_cases own : w = writer ∧ k = key
          · obtain ⟨rfl, rfl⟩ := own
            have one : writes [Act.write w k entry] w k = [entry] := by simp [writes, written]
            rw [one, List.getLast?_concat, Net.write]
            exact if_pos ⟨rfl, rfl, rfl⟩
          · have none_written : writes [Act.write writer key entry] w k = [] := by simp [writes, written, own]
            rw [none_written, List.append_nil, ← ih before, Net.write]
            exact if_neg fun same => own ⟨same.1, same.2.2⟩
      | send holder writer =>
          rw [show writes [Act.send holder writer] w k = [] from rfl, List.append_nil, ← ih before]
          rfl
      | deliver holder writer column known =>
          rw [show writes [Act.deliver holder writer column] w k = [] from rfl, List.append_nil, ← ih before]
          simp only [Net.deliver]
          split_ifs with here
          · obtain ⟨-, rfl⟩ := here
            refine keep_of_old fun b new => ?_
            rw [ih before]
            exact latest_of_clocked before (run.authentic.sent w column known k b new)
          · rfl

/-- No copy is ahead of its writer. -/
theorem Run.behind (run : Run time .init acts n) {i w : ι} (clocked : Clocked time acts w) {k : κ} {e : ε}
    (found : n.copies i w k = some e) : ∃ top ∈ n.copies w w k, time e ≤ time top := by
  rw [run.own clocked]
  exact latest_of_clocked clocked (run.authentic.copies i w k e found)

/-- No copy falls back. -/
theorem Run.forward (start : Run time .init front m) (rest : Run time m back last) {i w : ι}
    (clocked : Clocked time (front ++ back) w) {k : κ} {e : ε} (found : m.copies i w k = some e) :
    ∃ later ∈ last.copies i w k, time e ≤ time later := by
  induction rest with
  | nil => exact ⟨e, found, Nat.le_refl _⟩
  | @concat acts mid last a run step ih =>
      rw [← List.append_assoc] at clocked
      obtain ⟨between, held, late⟩ := ih clocked.earlier
      cases step with
      | write writer key entry =>
          by_cases own : i = writer ∧ w = writer ∧ k = key
          · obtain ⟨holds, writes_it, here⟩ := own
            subst holds writes_it here
            refine ⟨entry, if_pos ⟨rfl, rfl, rfl⟩, late.trans ?_⟩
            have whole := ((start.append run).concat (.write w k entry)).own clocked k
            have before := List.mem_append_left (writes [Act.write w k entry] w k)
              ((start.append run).authentic.copies w w k between held)
            rw [← writes_append] at before
            obtain ⟨top, there, above⟩ := latest_of_clocked clocked before
            have same : (Net.write mid w k entry).copies w w k = some entry := if_pos ⟨rfl, rfl, rfl⟩
            rw [← whole, same] at there
            cases there
            exact above
          · exact ⟨between, (if_neg own).trans held, late⟩
      | send holder writer => exact ⟨between, held, late⟩
      | deliver holder writer column known =>
          simp only [Net.deliver]
          split_ifs with here
          · obtain ⟨kept, found', above⟩ := keep_le time (y := column k) held
            exact ⟨kept, found', late.trans above⟩
          · exact ⟨between, held, late⟩

/-- Who is told all that a silent writer has written knows it from then on, whatever else comes in. -/
theorem Run.agrees (start : Run time .init front m) (rest : Run time m back last) {i w : ι}
    (quiet : ∀ k e, .write w k e ∉ back) (clocked : Clocked time front w) (decides : Decides time front w)
    (told : .deliver i w (m.copies w w) ∈ back) : last.copies i w = m.copies w w := by
  -- what is written, held or sent by then is what was written at the start
  have known {acts : List (Act ι κ ε)} {n : Net ι κ ε} (silent : ∀ k e, .write w k e ∉ acts)
      (run : Run time m acts n) : ∀ k, writes (front ++ acts) w k = writes front w k := by
    intro k
    rw [writes_append, writes_quiet silent, List.append_nil]
  have top {k : κ} {e : ε} (old : e ∈ writes front w k) :
      ∃ b ∈ m.copies w w k, time e ≤ time b ∧ (time e = time b → e = b) := by
    rw [start.own clocked]
    obtain ⟨b, final, late⟩ := latest_of_clocked clocked old
    exact ⟨b, final, late, decides k e old b (List.mem_of_getLast? final)⟩
  induction rest with
  | nil => cases told
  | @concat acts mid last a run step ih =>
      have silent : ∀ k e, .write w k e ∉ acts := fun k e member => quiet k e (List.mem_append_left _ member)
      have authentic := (start.append run).authentic
      funext k
      have copy (e : ε) (found : e ∈ mid.copies i w k) :
          ∃ b ∈ m.copies w w k, time e ≤ time b ∧ (time e = time b → e = b) := by
        have old := authentic.copies i w k e found
        rw [known silent run] at old
        exact top old
      obtain before | now := List.mem_append.mp told
      · have same := congrFun (ih silent before) k
        cases step with
        | write writer key entry =>
            refine (if_neg ?_).trans same
            rintro ⟨-, rfl, rfl⟩
            exact quiet k entry (List.mem_append_right _ List.mem_cons_self)
        | send holder writer => exact same
        | deliver holder writer column sent =>
            simp only [Net.deliver]
            split_ifs with here
            · obtain ⟨-, rfl⟩ := here
              rw [same]
              refine keep_of_old fun b new => ?_
              have old := authentic.sent w column sent k b new
              rw [known silent run] at old
              obtain ⟨b', final, late, -⟩ := top old
              exact ⟨b', final, late⟩
            · exact same
      · cases List.mem_singleton.mp now
        cases step with
        | deliver _ _ _ sent =>
            simp only [Net.deliver, and_self, if_true]
            exact keep_of_latest copy

end
end Replicas
