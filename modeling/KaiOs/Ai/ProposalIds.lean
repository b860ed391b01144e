import KaiOs.Ai.Proposal
import KaiOs.Lib.Fields
import KaiOs.Lib.Sha256
import KaiOs.Lib.WriteOnce

/-! What a proposal id stands for. The hashed text joins agent, kind and payload with a bar
that an agent or a kind may contain as well. -/
namespace KaiOs.Ai
open Traces Utf8 WriteOnce

section
variable {Value : Type}

def submissions (calls : List (ProposalCall Value)) : List (Submission Value) :=
  calls.filterMap fun
    | .submit s => some s
    | _ => none

/-- What is registered under an id, without the state. -/
def contentAt (r : ProposalRegistry Value) (id : String) : Option (Submission Value) :=
  r.proposals[id]?.map fun p => ⟨p.agent, p.kind, p.payload⟩

variable (E : AiExternals Value)

/-- Two submissions of one text, the fields of the second being cut at a later bar: its agent,
or its kind, contains a bar that separates two fields of the first. -/
inductive Recut (s t : Submission Value) : Prop
  | agent (x : String) (longer : t.agent = s.agent ++ "|" ++ x)
      (rest : s.kind ++ "|" ++ E.text s.payload = x ++ "|" ++ (t.kind ++ "|" ++ E.text t.payload)) : Recut s t
  | kind (x : String) (same : s.agent = t.agent) (longer : t.kind = s.kind ++ "|" ++ x)
      (rest : E.text s.payload = x ++ "|" ++ E.text t.payload) : Recut s t

end

theorem text_cuts {a b x y : String} (h : a ++ "|" ++ x = b ++ "|" ++ y) :
    (a = b ∧ x = y) ∨ (∃ m, b = a ++ "|" ++ m ∧ x = m ++ "|" ++ y) ∨
      ∃ m, a = b ++ "|" ++ m ∧ y = m ++ "|" ++ x := by
  have bar (s t : String) : utf8 (s ++ "|" ++ t) = utf8 s ++ UInt8.ofNat ('|').val.toNat :: utf8 t := by
    rw [utf8_append, utf8_append, List.append_assoc]
    rfl
  have bytes := congrArg utf8 h
  rw [bar, bar] at bytes
  obtain ⟨same, rest⟩ | ⟨m, longer, rest⟩ | ⟨m, longer, rest⟩ := field_cuts (c := '|') (by decide) bytes
  · exact .inl ⟨same, utf8_inj.mp rest⟩
  · exact .inr (.inl ⟨m, longer, utf8_inj.mp (rest.trans (bar m y).symm)⟩)
  · exact .inr (.inr ⟨m, longer, utf8_inj.mp (rest.trans (bar m x).symm)⟩)

section
variable {Value : Type} {E : AiExternals Value} {s t : Submission Value}

theorem text_eq (s : Submission Value) :
    s.text E = s.agent ++ "|" ++ (s.kind ++ "|" ++ E.text s.payload) := by
  rw [← String.append_assoc, ← String.append_assoc]
  rfl

theorem Recut.text_eq (h : Recut E s t) : s.text E = t.text E := by
  rw [Ai.text_eq, Ai.text_eq]
  cases h with
  | agent x longer rest => rw [longer, rest]; simp only [String.append_assoc]
  | kind x same longer rest => rw [same, longer, rest]; simp only [String.append_assoc]

theorem Recut.ne (h : Recut E s t) : s ≠ t := by
  rintro rfl
  have grows (a x : String) : a ≠ a ++ "|" ++ x := by
    intro same
    have lengths := congrArg String.length same
    rw [String.length_append, String.length_append] at lengths
    have one : ("|" : String).length = 1 := rfl
    omega
  cases h with
  | agent x longer rest => exact grows _ x longer
  | kind x same longer rest => exact grows _ x longer

/-- One text is one submission, or the same text cut in two ways. -/
theorem recut_of_text (same : s.text E = t.text E)
    (json : E.text s.payload = E.text t.payload → s.payload = t.payload) :
    s = t ∨ Recut E s t ∨ Recut E t s := by
  rw [text_eq, text_eq] at same
  obtain ⟨agents, rest⟩ | ⟨m, longer, rest⟩ | ⟨m, longer, rest⟩ := text_cuts same
  · obtain ⟨kinds, payloads⟩ | ⟨m, longer, rest⟩ | ⟨m, longer, rest⟩ := text_cuts rest
    · refine .inl ?_
      have payload := json payloads
      cases s
      cases t
      cases agents
      cases kinds
      cases payload
      rfl
    · exact .inr (.inl (.kind m agents longer rest))
    · exact .inr (.inr (.kind m agents.symm longer rest))
  · exact .inr (.inl (.agent m longer rest))
  · exact .inr (.inr (.agent m longer rest))

/-- Without a bar in an agent or a kind no text can be cut in two ways. -/
theorem not_recut_of_free (agent : Fields.Free '|' t.agent) (kind : Fields.Free '|' t.kind) : ¬ Recut E s t := by
  have bar (a x : String) : ¬ Fields.Free '|' (a ++ "|" ++ x) := by
    refine not_not.mpr ?_
    rw [String.toList_append, String.toList_append]
    exact List.mem_append_left _ (List.mem_append_right _ List.mem_cons_self)
  rintro (⟨x, longer, rest⟩ | ⟨x, same, longer, rest⟩)
  · exact bar _ x (longer ▸ agent)
  · exact bar _ x (longer ▸ kind)

end

section
variable {Value : Type} {E : AiExternals Value}

theorem contentAt_step {past : List (ProposalCall Value)} {r next : ProposalRegistry Value}
    {call : ProposalCall Value} {reply : ProposalReply}
    (h : ∀ key, contentAt r key = first (Submission.id E) id (submissions past) key)
    (taken : proposalStep E r call = some (reply, next)) (key : String) :
    contentAt next key = first (Submission.id E) id (submissions (past ++ [call])) key := by
  have insert_eq (a : AuditPipeline) (k : String) (p : Proposal Value) :
      contentAt ⟨r.proposals.insert k p, a⟩ key =
        if k = key then some ⟨p.agent, p.kind, p.payload⟩ else contentAt r key := by
    rw [contentAt, lookup_insert]
    split_ifs
    · rw [Option.map_some]
    · rw [contentAt]
  have moved (k : String) (p : Proposal Value) (state : ProposalState) (held : r.proposals[k]? = some p)
      (a : AuditPipeline) : contentAt ⟨r.proposals.insert k { p with state }, a⟩ key = contentAt r key := by
    rw [insert_eq]
    split_ifs with same
    · rw [contentAt, ← same, held, Option.map_some]
    · rfl
  have unsent (no : ∀ s, call ≠ .submit s) : submissions (past ++ [call]) = submissions past := by
    rw [submissions, List.filterMap_append, submissions]
    cases call with
    | submit s => exact absurd rfl (no s)
    | markSpecified | markHandedToVM => exact List.append_nil _
  have sent (s : Submission Value) : submissions (past ++ [.submit s]) = submissions past ++ [s] := by
    rw [submissions, List.filterMap_append]
    rfl
  cases proposalStep_moved taken with
  | resubmitted s p known =>
      rw [sent, first_append, first_singleton, ← h]
      split_ifs with same
      · rw [← same, contentAt, known, Option.map_some, Option.some_or]
      · rw [Option.or_none]
  | entered s unknown =>
      rw [sent, first_append, first_singleton, ← h, insert_eq]
      split_ifs with same
      · rw [← same, contentAt, unknown, Option.map_none, Option.none_or]
        rfl
      · rw [Option.or_none]
  | refused call transition e => rw [unsent transition, h]
  | specified k p held state =>
      rw [unsent (fun _ no => nomatch no), ← h]
      exact moved k p .specified held _
  | handed k p held state =>
      rw [unsent (fun _ no => nomatch no), ← h]
      exact moved k p .handedToVM held _

theorem contentAt_run {calls : List (ProposalCall Value)} {history : List (ProposalCall Value × ProposalReply)}
    {r : ProposalRegistry Value} (ran : run (proposalStep E) .new calls = some (history, r)) (key : String) :
    contentAt r key = first (Submission.id E) id (submissions calls) key := by
  have keeps (past : List (ProposalCall Value × ProposalReply)) (g : ProposalRegistry Value)
      (call : ProposalCall Value) (reply : ProposalReply) (next : ProposalRegistry Value)
      (h : ∀ key, contentAt g key = first (Submission.id E) id (submissions (past.map Prod.fst)) key)
      (taken : proposalStep E g call = some (reply, next)) (key : String) :
      contentAt next key =
        first (Submission.id E) id (submissions ((past ++ [(call, reply)]).map Prod.fst)) key := by
    rw [List.map_append]
    exact contentAt_step h taken key
  have start (key : String) : contentAt (.new : ProposalRegistry Value) key =
      first (Submission.id E) id
        (submissions (([] : List (ProposalCall Value × ProposalReply)).map Prod.fst)) key := by
    rw [contentAt, ProposalRegistry.new, Std.ExtTreeMap.getElem?_empty, Option.map_none]
    rfl
  have final := run_keeps keeps start ran key
  rwa [List.nil_append, run_calls ran] at final

theorem submitted_mem_iff {calls : List (ProposalCall Value)} {r last : ProposalRegistry Value}
    {history : List (ProposalCall Value × ProposalReply)}
    (ran : run (proposalStep E) r calls = some (history, last)) (s : Submission Value) (key : String) :
    (.submit s, .submitted key) ∈ history ↔ s ∈ submissions calls ∧ key = s.id E := by
  induction calls generalizing r history with
  | nil =>
      cases ran
      exact iff_of_false nofun nofun
  | cons call calls ih =>
      obtain ⟨reply, next, rest, taken, others, rfl⟩ := run_cons ran
      rw [List.mem_cons, ih others]
      cases call with
      | submit t =>
          have answered : reply = .submitted (t.id E) := by
            cases proposalStep_moved taken with
            | resubmitted | entered => rfl
            | refused call transition e => exact absurd rfl (transition t)
          subst answered
          have head : ((ProposalCall.submit s, ProposalReply.submitted key) =
              (.submit t, .submitted (t.id E))) ↔ s = t ∧ key = s.id E := by
            constructor
            · intro same
              cases same
              exact ⟨rfl, rfl⟩
            · rintro ⟨rfl, rfl⟩
              rfl
          have listed : s ∈ submissions (.submit t :: calls) ↔ s = t ∨ s ∈ submissions calls := List.mem_cons
          rw [head, listed, or_and_right]
      | markSpecified k | markHandedToVM k => exact or_iff_right (fun same => nomatch (Prod.mk_inj.mp same).1)

end

/-- Under a hash and a JSON text that tell the submissions of the run apart, an id stands for
what was submitted exactly where no two submissions are one text cut in two ways. -/
theorem ids_denote_iff {Value : Type} (E : AiExternals Value) (calls : List (ProposalCall Value))
    (history : List (ProposalCall Value × ProposalReply)) (r : ProposalRegistry Value)
    (ran : run (proposalStep E) .new calls = some (history, r))
    (hash : ∀ s ∈ submissions calls, ∀ t ∈ submissions calls,
      E.shaHex (s.text E) = E.shaHex (t.text E) → s.text E = t.text E)
    (json : ∀ s ∈ submissions calls, ∀ t ∈ submissions calls,
      E.text s.payload = E.text t.payload → s.payload = t.payload) :
    ((∀ s key, (.submit s, .submitted key) ∈ history → ∃ p, r.proposals[key]? = some p ∧
        p.agent = s.agent ∧ p.kind = s.kind ∧ p.payload = s.payload) ∧
      ∀ s t key, (.submit s, .submitted key) ∈ history → (.submit t, .submitted key) ∈ history →
        s.agent = t.agent ∧ s.kind = t.kind ∧ s.payload = t.payload) ↔
      ∀ s ∈ submissions calls, ∀ t ∈ submissions calls, ¬ Recut E s t := by
  have answered (s : Submission Value) (member : s ∈ submissions calls) :
      (.submit s, .submitted (s.id E)) ∈ history := (submitted_mem_iff ran s _).mpr ⟨member, rfl⟩
  constructor
  · rintro ⟨-, injective⟩ s hs t ht recut
    have same : s.id E = t.id E := congrArg E.shaHex recut.text_eq
    obtain ⟨agents, kinds, payloads⟩ := injective s t (s.id E) (answered s hs) (same ▸ answered t ht)
    refine recut.ne ?_
    cases s
    cases t
    cases agents
    cases kinds
    cases payloads
    rfl
  · intro clean
    have consistent : Consistent (Submission.id E) id (submissions calls) := by
      intro s hs t ht same
      obtain equal | recut | recut := recut_of_text (hash s hs t ht same) (json s hs t ht)
      · exact equal
      · exact absurd recut (clean s hs t ht)
      · exact absurd recut (clean t ht s hs)
    constructor
    · intro s key member
      obtain ⟨inside, rfl⟩ := (submitted_mem_iff ran s key).mp member
      have content := contentAt_run ran (s.id E)
      rw [first_of_consistent consistent inside] at content
      obtain ⟨p, held, same⟩ := Option.map_eq_some_iff.mp content
      cases same
      exact ⟨p, held, rfl, rfl, rfl⟩
    · intro s t key hs ht
      obtain ⟨ins, rfl⟩ := (submitted_mem_iff ran s key).mp hs
      obtain ⟨int, same⟩ := (submitted_mem_iff ran t _).mp ht
      have equal : s = t := consistent s ins t int same
      exact ⟨congrArg (·.agent) equal, congrArg (·.kind) equal, congrArg (·.payload) equal⟩

/-- Numbers as payloads, under the hash of the source. -/
def numbers : AiExternals ℕ := ⟨Sha256.hex, fun _ _ => none, toString⟩

theorem two_kinds_denoted :
    ∃ history r, run (proposalStep numbers) .new
        [.submit ⟨"scout", "transfer", 5⟩, .submit ⟨"scout", "mint", 5⟩] = some (history, r) ∧
      (∀ s key, (.submit s, .submitted key) ∈ history → ∃ p, r.proposals[key]? = some p ∧
        p.agent = s.agent ∧ p.kind = s.kind ∧ p.payload = s.payload) ∧
      ∀ s t key, (.submit s, .submitted key) ∈ history → (.submit t, .submitted key) ∈ history →
        s.agent = t.agent ∧ s.kind = t.kind ∧ s.payload = t.payload := by
  obtain ⟨⟨history, r⟩, ran⟩ := Option.isSome_iff_exists.mp (run_isSome proposalStep_isSome .new
    [.submit ⟨"scout", "transfer", 5⟩, .submit ⟨"scout", "mint", 5⟩])
  refine ⟨history, r, ran, (ids_denote_iff numbers _ history r ran ?_ fun s _ t _ => Fields.decimal_inj).mpr
    fun s _ t ht => ?_⟩
  · decide +kernel
  · have free : Fields.Free '|' t.agent ∧ Fields.Free '|' t.kind := by
      obtain rfl | final := List.mem_cons.mp ht
      · exact ⟨by decide, by decide⟩
      · cases List.mem_singleton.mp final
        exact ⟨by decide, by decide⟩
    exact not_recut_of_free free.1 free.2

/-- Hashing that loses nothing. -/
def unhashed : AiExternals ℕ := ⟨id, fun _ _ => none, toString⟩

/-- Two submissions of the text `a|b|c|5`: the second is answered with the proposal of the first. -/
theorem bar_merges_submissions :
    (∀ x y, unhashed.shaHex x = unhashed.shaHex y → x = y) ∧
      (∀ m n, unhashed.text m = unhashed.text n → m = n) ∧
      (run (proposalStep unhashed) .new [.submit ⟨"a|b", "c", 5⟩, .submit ⟨"a", "b|c", 5⟩]).map (fun x =>
          (x.1.map Prod.snd, x.2.proposals["a|b|c|5"]?.map fun p => (p.agent, p.kind))) =
        some ([.submitted "a|b|c|5", .submitted "a|b|c|5"], some ("a|b", "c")) :=
  ⟨fun _ _ same => same, fun _ _ => Fields.decimal_inj, by decide +kernel⟩

end KaiOs.Ai
