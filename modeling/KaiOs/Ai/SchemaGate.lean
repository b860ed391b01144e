import KaiOs.Ai.IpcRuns

/-! Which messages pass the schema gate. A type without a schema has no required fields there;
the earlier gates only know what an agent was registered for. -/
namespace KaiOs.Ai
open IpcGateway Traces

def Listed (msgType : String) : Prop := ∃ required, (msgType, required) ∈ schemas

instance (msgType : String) : Decidable (Listed msgType) :=
  decidable_of_iff (∃ entry ∈ schemas, entry.1 = msgType)
    ⟨fun ⟨entry, member, same⟩ => ⟨entry.2, same ▸ member⟩, fun ⟨_, member⟩ => ⟨_, member, rfl⟩⟩

section
variable {Value : Type} (E : AiExternals Value)

/-- The type is listed and the payload has every field that the type requires. -/
def Conforms (msg : IpcMessage Value) : Prop :=
  ∃ required, (msg.msgType, required) ∈ schemas ∧ ∀ field ∈ required, (E.get msg.payload field).isSome

/-- The identity, the capability and the replay gate let the message through. -/
def Passes (g : IpcGateway) (msg : IpcMessage Value) : Prop :=
  (∃ types, g.capabilities[msg.fromAgent]? = some types ∧ msg.msgType ∈ types) ∧
    (g.lastSeq[msg.fromAgent]?).getD 0 < msg.seq

/-- No message of an unlisted type gets as far as the schema gate. -/
def Screened (g : IpcGateway) : IpcCall Value → Prop
  | .deliver msg => Listed msg.msgType ∨ ¬ Passes g msg
  | .register _ _ => True

variable {E}

theorem conforms_of_checked {msg : IpcMessage Value} (listed : Listed msg.msgType)
    (checked : checkSchema E msg = .ok ()) : Conforms E msg := by
  unfold checkSchema at checked
  cases found : schemas.find? (·.1 == msg.msgType) with
  | none =>
      obtain ⟨required, member⟩ := listed
      have miss := List.find?_eq_none.mp found _ member
      exact absurd (beq_self_eq_true msg.msgType) miss
  | some entry =>
      obtain ⟨name, required⟩ := entry
      have hit : (name == msg.msgType) = true :=
        List.find?_some (p := fun entry : String × List String => entry.1 == msg.msgType) found
      have same : name = msg.msgType := eq_of_beq hit
      have member := List.mem_of_find?_eq_some found
      rw [found] at checked
      simp only [] at checked
      split at checked
      · cases checked
      · rename_i complete
        refine ⟨required, same ▸ member, fun field inside => ?_⟩
        have present := List.find?_eq_none.mp complete field inside
        rwa [Option.isNone_iff_eq_none, ← ne_eq, Option.ne_none_iff_isSome] at present

theorem checked_of_unlisted {msg : IpcMessage Value} (unlisted : ¬ Listed msg.msgType) :
    checkSchema E msg = .ok () := by
  have missing : schemas.find? (·.1 == msg.msgType) = none := by
    rw [List.find?_eq_none]
    intro entry member same
    exact unlisted ⟨entry.2, eq_of_beq same ▸ member⟩
  rw [checkSchema, missing]

theorem passes_of_accepted {g : IpcGateway} {msg : IpcMessage Value} {receipt : DeliveryReceipt}
    (accepted : (g.deliver E msg).1 = .ok receipt) : Passes g msg ∧ checkSchema E msg = .ok () := by
  obtain ⟨known, fresh, checked, -⟩ := decision_ok (deliver_ok accepted).1
  exact ⟨⟨known, fresh⟩, checked⟩

theorem accepted_of_passes {g : IpcGateway} {msg : IpcMessage Value} (passes : Passes g msg)
    (checked : checkSchema E msg = .ok ()) : ∃ receipt, (g.deliver E msg).1 = .ok receipt := by
  obtain ⟨⟨types, known, member⟩, fresh⟩ := passes
  have decided : verdictOn E g msg = .ok msg.seq := by
    rw [verdictOn, known]
    simp only [decision]
    rw [if_neg (not_not.mpr (List.contains_iff_mem.mpr member)), if_neg (UInt64.not_le.mpr fresh), checked]
    rfl
  cases result : (g.deliver E msg).1 with
  | error e => cases (deliver_error result).1.symm.trans decided
  | ok receipt => exact ⟨receipt, rfl⟩

theorem deliver_conforms_iff (g : IpcGateway) (msg : IpcMessage Value) :
    (∀ receipt, (g.deliver E msg).1 = .ok receipt → Conforms E msg) ↔ Listed msg.msgType ∨ ¬ Passes g msg := by
  by_cases listed : Listed msg.msgType
  · refine iff_of_true (fun receipt accepted => ?_) (.inl listed)
    exact conforms_of_checked listed (passes_of_accepted accepted).2
  · constructor
    · intro conforms
      refine .inr fun passes => ?_
      obtain ⟨receipt, accepted⟩ := accepted_of_passes passes (checked_of_unlisted (E := E) listed)
      obtain ⟨required, member, -⟩ := conforms receipt accepted
      exact listed ⟨required, member⟩
    · rintro (absent | stopped) receipt accepted
      · exact absurd absent listed
      · exact absurd (passes_of_accepted accepted).1 stopped

theorem accepted_conform_from {g last : IpcGateway} {calls : List (IpcCall Value)}
    {history : List (IpcCall Value × IpcReply)} (ran : run (ipcStep E) g calls = some (history, last)) :
    (∀ msg receipt, (.deliver msg, some (.ok receipt)) ∈ history → Conforms E msg) ↔
      Along (ipcStep E) Screened g calls := by
  induction calls generalizing g history with
  | nil =>
      cases ran
      exact iff_of_true nofun trivial
  | cons call calls ih =>
      obtain ⟨reply, next, rest, taken, others, rfl⟩ := run_cons ran
      rw [along_cons taken, ← ih others]
      cases call with
      | register agent msgTypes =>
          constructor
          · exact fun all => ⟨trivial, fun msg receipt member => all msg receipt (List.mem_cons_of_mem _ member)⟩
          · rintro ⟨-, later⟩ msg receipt member
            obtain same | inside := List.mem_cons.mp member
            · cases same
            · exact later msg receipt inside
      | deliver sent =>
          cases taken
          rw [Screened, ← deliver_conforms_iff (E := E)]
          constructor
          · refine fun all => ⟨fun receipt accepted => ?_, fun msg receipt member => ?_⟩
            · exact all sent receipt (by rw [accepted]; exact List.mem_cons_self)
            · exact all msg receipt (List.mem_cons_of_mem _ member)
          · rintro ⟨first, later⟩ msg receipt member
            obtain same | inside := List.mem_cons.mp member
            · obtain ⟨call, accepted⟩ := Prod.mk_inj.mp same
              cases call
              exact first receipt (Option.some.inj accepted).symm
            · exact later msg receipt inside

/-- Registrations for listed types only keep every unlisted type out. -/
theorem screened_of_listed {g : IpcGateway} {calls : List (IpcCall Value)}
    (known : ∀ (agent : String) types, g.capabilities[agent]? = some types → ∀ t ∈ types, Listed t)
    (listed : ∀ agent types, .register agent types ∈ calls → ∀ t ∈ types, Listed t) :
    Along (ipcStep E) Screened g calls := by
  induction calls generalizing g with
  | nil => trivial
  | cons call calls ih =>
      obtain ⟨⟨reply, next⟩, taken⟩ := Option.isSome_iff_exists.mp (ipcStep_isSome (E := E) g call)
      refine (along_cons taken).mpr ⟨?_, ih (fun agent types held => ?_) fun agent types member =>
        listed agent types (List.mem_cons_of_mem _ member)⟩
      · cases call with
        | register agent msgTypes => trivial
        | deliver msg =>
            refine or_iff_not_imp_right.mpr fun passes => ?_
            obtain ⟨⟨types, held, member⟩, -⟩ := not_not.mp passes
            exact known msg.fromAgent types held _ member
      · rw [ipcStep_capabilities taken] at held
        cases call with
        | deliver msg => exact known agent types held
        | register other msgTypes =>
            rw [granted] at held
            split_ifs at held with same
            · cases held
              exact listed other _ List.mem_cons_self
            · exact known agent types held

theorem accepted_conform {calls : List (IpcCall Value)} {history : List (IpcCall Value × IpcReply)}
    {g : IpcGateway} (ran : run (ipcStep E) new calls = some (history, g))
    (listed : ∀ agent types, .register agent types ∈ calls → ∀ t ∈ types, Listed t) {msg : IpcMessage Value}
    {receipt : DeliveryReceipt} (accepted : (.deliver msg, some (.ok receipt)) ∈ history) : Conforms E msg := by
  refine (accepted_conform_from ran).mpr (screened_of_listed (fun agent types held => ?_) listed) _ _ accepted
  cases Std.ExtTreeMap.getElem?_empty.symm.trans held

end

/-- The accepted messages of a run conform exactly where no message of an unlisted type has
passed the gates before the schema. -/
theorem accepted_conform_iff {Value : Type} (E : AiExternals Value) (calls : List (IpcCall Value))
    (history : List (IpcCall Value × IpcReply)) (g : IpcGateway)
    (ran : run (ipcStep E) new calls = some (history, g)) :
    (∀ msg receipt, (.deliver msg, some (.ok receipt)) ∈ history → Conforms E msg) ↔
      Along (ipcStep E) Screened new calls :=
  accepted_conform_from ran

/-- JSON `null`, which has no fields. -/
def nullOnly : AiExternals Unit := ⟨Sha256.hex, fun _ _ => none, fun _ => "null"⟩

theorem query_without_key_screened : Along (ipcStep nullOnly) Screened new
    [.register "scout" ["query_state"], .deliver ⟨"scout", "query_state", 1, ()⟩] := by
  have replies : (run (ipcStep nullOnly) new
      [.register "scout" ["query_state"], .deliver ⟨"scout", "query_state", 1, ()⟩]).map
        (fun x => x.1.map Prod.snd) = some [none, some (.error (.schemaViolation "query_state" "key"))] := by
    decide +kernel
  obtain ⟨⟨history, g⟩, ran, answers⟩ := Option.map_eq_some_iff.mp replies
  refine (accepted_conform_iff nullOnly _ history g ran).mp fun msg receipt member => ?_
  have answered : some (.ok receipt) ∈ history.map Prod.snd := List.mem_map.mpr ⟨_, member, rfl⟩
  rw [answers] at answered
  obtain same | final := List.mem_cons.mp answered
  · cases same
  · cases List.mem_singleton.mp final

/-- An agent registered for a type without a schema: its message is accepted with an empty
payload. -/
theorem unlisted_type_accepted :
    (run (ipcStep nullOnly) new
      [.register "scout" ["wipe_disk"], .deliver ⟨"scout", "wipe_disk", 1, ()⟩]).map
        (fun x => x.1.map Prod.snd) = some [none, some (.ok ⟨1, 2⟩)] ∧
      ¬ Conforms nullOnly ⟨"scout", "wipe_disk", 1, ()⟩ := by
  refine ⟨by decide +kernel, fun ⟨required, member, _⟩ => ?_⟩
  exact (by decide : ¬ Listed "wipe_disk") ⟨required, member⟩

end KaiOs.Ai
