import KaiOs.Lib.SealedChain

/-! `ai/src/audit.rs`: the append-only audit trail. Every event names the hash of the event
before it. -/
namespace KaiOs.Ai

/-- What the crate takes from other packages: SHA-256 of a text in hex, the fields of a JSON
value and its text. -/
structure AiExternals (Value : Type) where
  shaHex : String → String
  get : Value → String → Option Value
  text : Value → String

def genesisHash : String := "0000000000000000000000000000000000000000000000000000000000000000"

structure AuditEvent where
  seq : UInt64
  actor : String
  kind : String
  payload : String
  prevHash : String
  hash : String
  deriving DecidableEq

/-- The text that is hashed. -/
def hashText (seq : UInt64) (actor kind payload prevHash : String) : String :=
  s!"{seq}|{actor}|{kind}|{payload}|{prevHash}"

/-- Where an event has what the chain is made of. -/
def AuditEvent.layout : SealedChain.Layout AuditEvent :=
  ⟨seq, prevHash, hash, fun e => hashText e.seq e.actor e.kind e.payload e.prevHash⟩

/-- What a call brings along. -/
def AuditEvent.fields (e : AuditEvent) : List String := [e.actor, e.kind, e.payload]

theorem AuditEvent.joins : layout.Joins "|" 3 fields where
  text e := by
    simp only [layout, hashText, fields, String.intercalate_cons_cons, String.intercalate_singleton,
      String.append_assoc]
    rfl
  several := by decide
  length _ := rfl
  refill e ys full := by
    obtain ⟨actor, kind, payload, rfl⟩ := List.length_eq_three.mp full
    exact ⟨⟨e.seq, actor, kind, payload, e.prevHash, e.hash⟩, rfl, rfl, rfl, rfl⟩
  ext x y number link hash same := by
    cases x
    cases y
    simp_all [layout, fields]

structure AuditPipeline where
  events : List AuditEvent
  deriving DecidableEq

theorem getElem?_concat_cases {α : Type} {xs : List α} {x y : α} {i : ℕ} (h : (xs ++ [x])[i]? = some y) :
    xs[i]? = some y ∨ i = xs.length ∧ y = x := by
  rw [List.getElem?_append] at h
  split_ifs at h with inside
  · exact .inl h
  · obtain ⟨last, same⟩ := List.getElem?_eq_some_iff.mp h
    rw [List.length_singleton] at last
    have index : i = xs.length := by omega
    subst index
    exact .inr ⟨rfl, by simpa only [Nat.sub_self, List.getElem_cons_zero] using same.symm⟩

namespace AuditPipeline
open HashChain SealedChain

def new : AuditPipeline := ⟨[]⟩

section
variable (shaHex : String → String)

def record (a : AuditPipeline) (actor kind payload : String) : UInt64 × AuditPipeline :=
  let seq := UInt64.ofNat a.events.length + 1
  let prevHash := (a.events.getLast?.map (·.hash)).getD genesisHash
  let hash := shaHex (hashText seq actor kind payload prevHash)
  (seq, ⟨a.events ++ [⟨seq, actor, kind, payload, prevHash, hash⟩]⟩)

/-- The loop of `verify`, from the event with index `i` on. -/
def verifyFrom : ℕ → String → List AuditEvent → Bool
  | _, _, [] => true
  | i, prev, e :: es =>
      if e.seq ≠ UInt64.ofNat i + 1 ∨ e.prevHash ≠ prev then false
      else if e.hash ≠ shaHex (hashText e.seq e.actor e.kind e.payload e.prevHash) then false
      else verifyFrom (i + 1) e.hash es

def verify (a : AuditPipeline) : Bool := verifyFrom shaHex 0 genesisHash a.events

theorem verifyFrom_eq (i : ℕ) (prev : String) (es : List AuditEvent) :
    verifyFrom shaHex i prev es = AuditEvent.layout.checkFrom shaHex i prev es := by
  induction es generalizing i prev with
  | nil => rfl
  | cons e es ih =>
      rw [verifyFrom, ih]
      rfl

theorem verify_iff_sealed (a : AuditPipeline) :
    a.verify shaHex = true ↔ AuditEvent.layout.Sealed shaHex 0 genesisHash a.events := by
  rw [verify, verifyFrom_eq, checkFrom_iff]

/-- A trail verifies when it is linked from the start value, numbered without a gap, and
every hash is the hash of its event. -/
theorem verify_iff (a : AuditPipeline) :
    a.verify shaHex = true ↔ Linked AuditEvent.prevHash AuditEvent.hash genesisHash a.events ∧
      ∀ j e, a.events[j]? = some e → e.seq = UInt64.ofNat j + 1 ∧
        e.hash = shaHex (hashText e.seq e.actor e.kind e.payload e.prevHash) := by
  rw [verify_iff_sealed, sealed_iff]
  simp only [AuditEvent.layout, Nat.zero_add]

theorem verify_record {a : AuditPipeline} (h : a.verify shaHex = true) (actor kind payload : String) :
    (a.record shaHex actor kind payload).2.verify shaHex = true := by
  rw [verify_iff_sealed] at h ⊢
  refine (sealed_concat 0 genesisHash a.events _).mpr ⟨h, ?_, (tip_eq_getLast? _ _ _).symm, rfl⟩
  rw [Nat.zero_add]
  rfl

theorem record_events (a : AuditPipeline) (actor kind payload : String) :
    ∃ event, (a.record shaHex actor kind payload).2.events = a.events ++ [event] ∧
      event.seq = (a.record shaHex actor kind payload).1 ∧ event.actor = actor ∧ event.kind = kind ∧
      event.payload = payload :=
  ⟨_, rfl, rfl, rfl, rfl, rfl⟩

/-- The calls of one trail, one after the other. -/
def recordAll (a : AuditPipeline) (calls : List (String × String × String)) : AuditPipeline :=
  calls.foldl (fun a (actor, kind, payload) => (a.record shaHex actor kind payload).2) a

theorem verify_recordAll {a : AuditPipeline} (h : a.verify shaHex = true)
    (calls : List (String × String × String)) : (a.recordAll shaHex calls).verify shaHex = true := by
  induction calls generalizing a with
  | nil => exact h
  | cons call calls ih => exact ih (verify_record shaHex h call.1 call.2.1 call.2.2)

theorem recordAll_fields (a : AuditPipeline) (calls : List (String × String × String)) :
    (a.recordAll shaHex calls).events.map AuditEvent.fields =
      a.events.map AuditEvent.fields ++ calls.map fun call => [call.1, call.2.1, call.2.2] := by
  induction calls generalizing a with
  | nil => exact (List.append_nil _).symm
  | cons call calls ih =>
      have rest := ih (a.record shaHex call.1 call.2.1 call.2.2).2
      rw [record, List.map_append, List.append_assoc] at rest
      exact rest

/-- Of the verified trails of its length, a recorded one is the only one with its last hash exactly
when no call brought a separator. -/
theorem recordAll_unique_iff (calls : List (String × String × String)) (hex : ∀ t, Fields.Free '|' (shaHex t))
    (unmatched : Signature.Unmatched shaHex
      {t | ∃ e ∈ (new.recordAll shaHex calls).events, AuditEvent.layout.text e = t}) :
    (∀ b : AuditPipeline, b.verify shaHex = true → b.events.length = (new.recordAll shaHex calls).events.length →
      b.events.getLast?.map (·.hash) = (new.recordAll shaHex calls).events.getLast?.map (·.hash) →
        b.events = (new.recordAll shaHex calls).events) ↔
      ∀ call ∈ calls, Fields.Free '|' call.1 ∧ Fields.Free '|' call.2.1 ∧ Fields.Free '|' call.2.2 := by
  have chain := (verify_iff_sealed shaHex _).mp (verify_recordAll shaHex (a := new) rfl calls)
  have recorded := recordAll_fields shaHex new calls
  have binds := AuditEvent.joins.tamper_evident_iff (c := '|') rfl (by decide) hex unmatched chain
  have brought : (∀ e ∈ (new.recordAll shaHex calls).events, ∀ f ∈ e.fields, Fields.Free '|' f) ↔
      ∀ call ∈ calls, Fields.Free '|' call.1 ∧ Fields.Free '|' call.2.1 ∧ Fields.Free '|' call.2.2 := by
    rw [← List.forall_mem_map (f := AuditEvent.fields) (P := fun fs => ∀ f ∈ fs, Fields.Free '|' f), recorded,
      new, List.map_nil, List.nil_append, List.forall_mem_map]
    simp only [List.forall_mem_cons, List.not_mem_nil, false_implies, implies_true, and_true]
  rw [← brought, ← binds]
  constructor
  · intro unique es sealed
    exact unique ⟨es⟩ ((verify_iff_sealed shaHex ⟨es⟩).mpr sealed)
  · intro unique b verified
    exact unique b.events ((verify_iff_sealed shaHex b).mp verified)

end
end AuditPipeline
end KaiOs.Ai
