import KaiOs.Lib.Sha256
import KaiOs.Runtime.Sandbox

/-! What sandboxes with different ids can notice of each other on a shared manager. -/
namespace KaiOs.Runtime
open Machine ResourceManager Traces

section
variable {build : Build} {rm rm' rm₂ : ResourceManager} {id : String}

theorem charge_local {c : Counter} {resource : String} {limit n : UInt64} {result : Except ResourceError Unit}
    (same : rm₂.usageOf id = rm.usageOf id)
    (h : charge build c resource limit rm id n = some (result, rm')) :
    ∃ rm₂', charge build c resource limit rm₂ id n = some (result, rm₂') ∧
      rm₂'.usageOf id = rm'.usageOf id := by
  obtain ⟨total, sum, ⟨above, rfl, rfl⟩ | ⟨within, rfl, rfl⟩⟩ := charge_cases h
  · refine ⟨rm₂, ?_, same⟩
    rw [charge_eq, same, sum, Option.map_some, if_pos above]
  · refine ⟨rm₂.put id ((rm.usageOf id).set total c), ?_, ?_⟩
    · rw [charge_eq, same, sum, Option.map_some, if_neg (UInt64.not_lt.mpr within)]
    · rw [usageOf_put_self, usageOf_put_self]

theorem book_local {c : Counter} {n : UInt64} (same : rm₂.usageOf id = rm.usageOf id)
    (h : book build c rm id n = some rm') :
    ∃ rm₂', book build c rm₂ id n = some rm₂' ∧ rm₂'.usageOf id = rm'.usageOf id := by
  obtain ⟨total, sum, rfl⟩ := book_cases h
  refine ⟨rm₂.put id ((rm.usageOf id).set total c), ?_, ?_⟩
  · rw [book, same, sum, Option.map_some]
  · rw [usageOf_put_self, usageOf_put_self]

theorem freeMemory_local {bytes : UInt64} {result : Except ResourceError Unit}
    (same : rm₂.usageOf id = rm.usageOf id) (h : freeMemory build rm id bytes = some (result, rm')) :
    ∃ rm₂', freeMemory build rm₂ id bytes = some (result, rm₂') ∧ rm₂'.usageOf id = rm'.usageOf id := by
  rw [freeMemory_eq] at h ⊢
  rw [same]
  split_ifs at h ⊢ with above <;> cases h
  · exact ⟨rm₂, rfl, same⟩
  · exact ⟨_, rfl, by rw [usageOf_put_self, usageOf_put_self]⟩

theorem answer_local {outcome : ExecOutcome} {done done₂ : Option (Except ResourceError Unit × ResourceManager)}
    {result : Except SandboxError ExecOutcome}
    (own : ∀ charged next, done = some (charged, next) →
      ∃ next₂, done₂ = some (charged, next₂) ∧ next₂.usageOf id = next.usageOf id)
    (h : done.map (answer outcome) = some (result, rm')) :
    ∃ rm₂', done₂.map (answer outcome) = some (result, rm₂') ∧ rm₂'.usageOf id = rm'.usageOf id := by
  obtain ⟨⟨charged, next⟩, first, h⟩ := Option.map_eq_some_iff.mp h
  obtain ⟨next₂, second, alike⟩ := own charged next first
  cases charged <;> cases h <;> exact ⟨next₂, by rw [second]; rfl, alike⟩

theorem outcome_local {outcome : ExecOutcome} {done done₂ : Option ResourceManager}
    {result : Except SandboxError ExecOutcome}
    (own : ∀ next, done = some next → ∃ next₂, done₂ = some next₂ ∧ next₂.usageOf id = next.usageOf id)
    (h : done.map (fun next => (.ok outcome, next)) = some (result, rm')) :
    ∃ rm₂', done₂.map (fun next => (.ok outcome, next)) = some (result, rm₂') ∧
      rm₂'.usageOf id = rm'.usageOf id := by
  obtain ⟨next, first, h⟩ := Option.map_eq_some_iff.mp h
  obtain ⟨next₂, second, alike⟩ := own next first
  cases h
  exact ⟨next₂, by rw [second]; rfl, alike⟩

end

section
variable {shaHex : String → String} {build : Build} {s : Sandbox} {op : Operation} {rm rm' rm₂ : ResourceManager}
  {result : Except SandboxError ExecOutcome}

theorem execute_local (same : rm₂.usageOf s.id = rm.usageOf s.id)
    (h : s.execute shaHex build op rm = some (result, rm')) :
    ∃ rm₂', s.execute shaHex build op rm₂ = some (result, rm₂') ∧ rm₂'.usageOf s.id = rm'.usageOf s.id := by
  cases op with
  | compute | alloc | store => exact answer_local (fun _ _ => charge_local same) h
  | free bytes => exact answer_local (fun _ _ => freeMemory_local same) h
  | networkOut bytes port | networkIn bytes port =>
      simp only [Sandbox.execute] at h ⊢
      split_ifs at h ⊢ with allowed
      · exact outcome_local (fun _ => book_local same) h
      · cases h
        exact ⟨rm₂, rfl, same⟩
  | syscall | sign =>
      simp only [Sandbox.execute] at h ⊢
      split_ifs at h ⊢ with allowed <;> cases h <;> exact ⟨rm₂, rfl, same⟩

theorem execute_error {e : SandboxError} (h : s.execute shaHex build op rm = some (.error e, rm')) : rm' = rm := by
  cases execute_ended h
  rfl

end

def callOf (s : Sandbox) : Action → Bool
  | .execute t _ => t.id == s.id
  | .resetTick => false

/-- The two managers differ at most in the record of one id. -/
def AgreeBut (hidden : String) (rm rm₂ : ResourceManager) : Prop :=
  ∀ id ≠ hidden, rm₂.usageOf id = rm.usageOf id

section
variable {shaHex : String → String} {build : Build} {b : Sandbox} {rm rm₂ next : ResourceManager}
  {a : Action} {reply : Reply}

theorem agree_of_hidden (agree : AgreeBut b.id rm rm₂) (taken : step shaHex build rm a = some (reply, next))
    (hidden : callOf b a = true) : AgreeBut b.id next rm₂ := by
  cases a with
  | resetTick => cases hidden
  | execute s op =>
      obtain ⟨⟨result, _⟩, executed, h⟩ := Option.map_eq_some_iff.mp taken
      cases h
      intro id other
      rw [agree id other, (execute_ended executed).frame fun own => other (own.trans (eq_of_beq hidden))]

theorem agree_of_seen (agree : AgreeBut b.id rm rm₂) (taken : step shaHex build rm a = some (reply, next))
    (seen : callOf b a = false) :
    ∃ next₂, step shaHex build rm₂ a = some (reply, next₂) ∧ AgreeBut b.id next next₂ := by
  cases a with
  | resetTick =>
      cases taken
      refine ⟨rm₂.resetTick, rfl, fun id other => ?_⟩
      rw [usageOf_resetTick, usageOf_resetTick, agree id other]
  | execute s op =>
      obtain ⟨⟨result, _⟩, executed, h⟩ := Option.map_eq_some_iff.mp taken
      cases h
      obtain ⟨next₂, again, own⟩ := execute_local (agree s.id (ne_of_beq_false seen)) executed
      refine ⟨next₂, by rw [step, again, Option.map_some], fun id other => ?_⟩
      by_cases caller : id = s.id
      · rw [caller, own]
      · rw [(execute_ended again).frame caller, (execute_ended executed).frame caller, agree id other]

end

theorem run_without {shaHex : String → String} {build : Build} (b : Sandbox) {rm last : ResourceManager}
    {actions : List Action} {history : List (Action × Reply)}
    (ran : run (step shaHex build) rm actions = some (history, last)) :
    ∃ last', run (step shaHex build) rm (actions.filter (! callOf b ·)) =
        some (history.filter (! callOf b ·.1), last') ∧ AgreeBut b.id last last' := by
  have stays (g h : ResourceManager) (a : Action) (r : Reply) (next : ResourceManager)
      (agree : AgreeBut b.id g h) (taken : step shaHex build g a = some (r, next)) (out : callOf b a = true) :
      AgreeBut b.id next h := agree_of_hidden agree taken out
  have matched (g h : ResourceManager) (a : Action) (r : Reply) (next : ResourceManager)
      (agree : AgreeBut b.id g h) (taken : step shaHex build g a = some (r, next)) (out : callOf b a = false) :
      ∃ r' next', step shaHex build h a = some (r', next') ∧ id (a, r') = id (a, r) ∧ AgreeBut b.id next next' := by
    obtain ⟨next₂, again, agree⟩ := agree_of_seen agree taken out
    exact ⟨r, next₂, again, rfl, agree⟩
  have kept : actions.filter (! callOf b ·) = (history.filter (! callOf b ·.1)).map Prod.fst := by
    rw [← run_calls ran, List.filter_map]
    rfl
  have self : AgreeBut b.id rm rm := fun _ _ => rfl
  obtain ⟨history', last', again, same, agree⟩ :=
    purge (fun entry : Action × Reply => callOf b entry.1) stays matched self ran
  rw [List.map_id, List.map_id] at same
  rw [kept, ← same]
  exact ⟨last', same ▸ again, agree⟩

/-- Two sandboxes on one manager, and a call that fails. A run is a sequence of calls that does
not end in a panic, which a release build never does. -/
theorem sandboxes_isolated (shaHex : String → String) (a b : Sandbox) (other : a.id ≠ b.id) (build : Build)
    (rm : ResourceManager) (actions : List Action) :
    (∀ history last, run (step shaHex build) rm actions = some (history, last) →
      ∃ history' last', run (step shaHex build) rm (actions.filter (! callOf b ·)) = some (history', last') ∧
        history'.filter (callOf a ·.1) = history.filter (callOf a ·.1) ∧
        last'.usageOf a.id = last.usageOf a.id) ∧
      (run (step shaHex .release) rm actions).isSome ∧
      ∀ s op e rm', Sandbox.execute shaHex build s op rm = some (.error e, rm') →
        ∀ id, rm'.usageOf id = rm.usageOf id := by
  refine ⟨fun history last ran => ?_, run_isSome (step_release_isSome shaHex) rm actions, ?_⟩
  · obtain ⟨last', again, agree⟩ := run_without b ran
    refine ⟨_, last', again, ?_, agree a.id other⟩
    rw [List.filter_filter]
    refine List.filter_congr fun (action, reply) _ => ?_
    cases action with
    | resetTick => rfl
    | execute s op =>
        by_cases own : s.id = a.id
        · have hidden : (s.id == b.id) = false := beq_false_of_ne fun same => other (own.symm.trans same)
          simp only [callOf, hidden, Bool.not_false, Bool.and_true]
        · have unseen : (s.id == a.id) = false := beq_false_of_ne own
          simp only [callOf, unseen, Bool.false_and]
  · intro s op e rm' refused id
    rw [execute_error refused]

theorem sandboxes_isolated_pair :
    ∃ history last, run (step Sha256.hex .checked) new
        [.execute ⟨"left", ⟨10, 10, 10, .closed, [], false⟩⟩ (.compute 7),
          .execute ⟨"left", ⟨10, 10, 10, .closed, [], false⟩⟩ (.compute 7)] = some (history, last) ∧
      last.usageOf "left" = { cpuMsUsed := 7 } := by
  have whole : (run (step Sha256.hex .checked) new
      [.execute ⟨"left", ⟨10, 10, 10, .closed, [], false⟩⟩ (.compute 7),
        .execute ⟨"right", ⟨10, 10, 10, .closed, [], false⟩⟩ (.compute 9),
        .execute ⟨"left", ⟨10, 10, 10, .closed, [], false⟩⟩ (.compute 7)]).map
          (fun (_, last) => last.usageOf "left") = some { cpuMsUsed := 7 } := by
    decide +kernel
  obtain ⟨⟨history, last⟩, ran, used⟩ := Option.map_eq_some_iff.mp whole
  obtain ⟨history', last', again, -, same⟩ :=
    (sandboxes_isolated Sha256.hex ⟨"left", ⟨10, 10, 10, .closed, [], false⟩⟩
      ⟨"right", ⟨10, 10, 10, .closed, [], false⟩⟩ (by decide) .checked new _).1 history last ran
  exact ⟨history', last', again, same.trans used⟩

end KaiOs.Runtime
