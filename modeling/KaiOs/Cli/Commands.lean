import KaiOs.Keyring.Boundary
import KaiOs.Lib.Fields

/-! `kai keys list` of `cli/src/commands.rs`: what is printed of a keyring, and what that tells. -/
namespace KaiOs.Cli
open Fields Utf8 Network Keys Traces

def kindStr : KeyKind → String
  | .nodeIdentity => "node-identity"
  | .agentSigning => "agent-signing"

/-- `{public:?}` -/
def debug (public' : U8Array 32) : String :=
  "[" ++ ", ".intercalate (public'.val.map fun b => toString b.toNat) ++ "]"

def keyLine (key : String × U8Array 32 × KeyKind) : String :=
  "  " ++ key.1 ++ " [" ++ kindStr key.2.2 ++ "] " ++ debug key.2.1

section
variable {SigningKey : Type} (E : KeyExternals SigningKey)

def cmdKeysList (ring : Keyring SigningKey) : String :=
  ((ring.list E).mergeSort fun a b => (compare a.1 b.1).isLE).foldl (fun out key => out ++ (keyLine key ++ "\n"))
    "keyring (public information only):\n"

/-- No id breaks its line. -/
def OneLiners (ring : Keyring SigningKey) : Prop := ∀ id ∈ ring.keys, Free '\n' id

end

theorem kindStr_injective : Function.Injective kindStr := by
  intro a b same
  cases a with
  | nodeIdentity | agentSigning =>
      cases b with
      | nodeIdentity | agentSigning => first | rfl | exact absurd same (by decide)

theorem comma_toList : ",".toList = [','] := rfl

theorem comma (field rest : String) : field ++ ", " ++ rest = field ++ "," ++ (" " ++ rest) := by
  have pieces : ", " = "," ++ " " := rfl
  rw [pieces, String.append_assoc, String.append_assoc, String.append_assoc]

theorem intercalate_numbers_inj {bs bs' : Bytes} (lengths : bs.length = bs'.length)
    (same : ", ".intercalate (bs.map fun b => toString b.toNat) =
      ", ".intercalate (bs'.map fun b => toString b.toNat)) : bs = bs' := by
  induction bs generalizing bs' with
  | nil => exact (List.length_eq_zero_iff.mp lengths.symm).symm
  | cons b bs ih =>
      cases bs' with
      | nil => cases lengths
      | cons b' bs' =>
          replace lengths := Nat.succ.inj lengths
          cases bs with
          | nil =>
              obtain rfl := List.length_eq_zero_iff.mp lengths.symm
              simp only [List.map_cons, List.map_nil, String.intercalate_singleton] at same
              rw [UInt8.toNat_inj.mp (decimal_inj same)]
          | cons c bs =>
              obtain ⟨c', bs', rfl⟩ := List.exists_cons_of_length_eq_add_one lengths.symm
              simp only [List.map_cons, String.intercalate_cons_cons, comma] at same
              obtain ⟨first, rest⟩ := first_field comma_toList (free_decimal rfl _) (free_decimal rfl _) same
              rw [UInt8.toNat_inj.mp (decimal_inj first), ih lengths]
              simpa only [List.map_cons] using (String.append_right_inj _).mp rest

theorem bracket_toList : "[".toList = ['['] := rfl

/-- What stands behind the bracket of a key contains only digits, commas, blanks and the other bracket. -/
theorem free_debug {c : Char} (digit : c.isDigit = false) (other : Free c ", ]") (public' : U8Array 32) :
    Free c (", ".intercalate (public'.val.map fun b => toString b.toNat) ++ "]") := by
  have pieces : ", ]" = ", " ++ "]" := rfl
  rw [pieces, free_append] at other
  refine free_append.mpr ⟨free_intercalate other.1 fun x member => ?_, other.2⟩
  obtain ⟨b, -, rfl⟩ := List.mem_map.mp member
  exact free_decimal digit b.toNat

/-- A line is read from its end, whatever the id is. -/
theorem keyLine_injective : Function.Injective keyLine := by
  intro (id, public', kind) (id', public'', kind') same
  have shape (id : String) (public' : U8Array 32) (kind : KeyKind) : keyLine (id, public', kind) =
      ("  " ++ id ++ " " ++ "[" ++ (kindStr kind ++ "] ")) ++ "[" ++
        (", ".intercalate (public'.val.map fun b => toString b.toNat) ++ "]") := by
    have pieces : " [" = " " ++ "[" := rfl
    simp only [keyLine, debug, pieces, String.append_assoc]
  have free (kind : KeyKind) : Free '[' (kindStr kind ++ "] ") := by
    cases kind with
    | nodeIdentity | agentSigning => decide
  rw [shape, shape] at same
  obtain ⟨front, key⟩ := last_field bracket_toList (free_debug rfl (by decide) _) (free_debug rfl (by decide) _) same
  obtain ⟨front, kinds⟩ := last_field bracket_toList (free kind) (free kind') front
  have lengths : public'.val.length = public''.val.length := public'.property.trans public''.property.symm
  rw [String.append_left_inj] at front key kinds
  rw [String.append_right_inj] at front
  rw [front, kindStr_injective kinds, Subtype.ext (intercalate_numbers_inj lengths key)]

section
variable {SigningKey SigningKey' : Type} {E : KeyExternals SigningKey} {E' : KeyExternals SigningKey'}
  {ring : Keyring SigningKey} {ring' : Keyring SigningKey'}

theorem cmdKeysList_eq (ring : Keyring SigningKey) : cmdKeysList E ring =
    "keyring (public information only):\n" ++ close "\n" ((ring.outside E).toList.map keyLine) := by
  have pushed (out : String) (keys : List (String × U8Array 32 × KeyKind)) :
      keys.foldl (fun out key => out ++ (keyLine key ++ "\n")) out = out ++ close "\n" (keys.map keyLine) := by
    induction keys generalizing out with
    | nil => exact String.append_empty.symm
    | cons key keys ih => rw [List.foldl_cons, ih, List.map_cons, close, String.append_assoc]
  have sorted : (ring.outside E).toList.Pairwise fun a b => (compare a.1 b.1).isLE = true := by
    refine Std.ExtTreeMap.ordered_keys_toList.imp fun before => ?_
    rw [before]
    rfl
  rw [cmdKeysList, outside_list, List.mergeSort_of_pairwise sorted, pushed]

theorem keyLine_free (plain : OneLiners ring) : ∀ line ∈ (ring.outside E).toList.map keyLine, Free '\n' line := by
  intro line member
  obtain ⟨⟨id, public', kind⟩, listed, rfl⟩ := List.mem_map.mp member
  rw [Std.ExtTreeMap.mem_toList_iff_getElem?_eq_some, outside_get] at listed
  obtain ⟨e, held, -⟩ := Option.map_eq_some_iff.mp listed
  have known : id ∈ ring.keys := by
    rw [Std.ExtTreeMap.mem_iff_isSome_getElem?, held]
    rfl
  have free : Free '\n' (kindStr kind) := by
    cases kind with
    | nodeIdentity | agentSigning => decide
  have key := free_append.mp (@free_debug '\n' rfl (by decide) public')
  simp only [keyLine, debug, free_append]
  exact ⟨⟨⟨⟨⟨by decide, plain id known⟩, by decide⟩, free⟩, by decide⟩, ⟨by decide, key.1⟩, key.2⟩

/-- A list of keys without line breaks in their ids tells all that is public, and nothing else. -/
theorem keys_list_tells (plain : OneLiners ring) (plain' : OneLiners ring') :
    cmdKeysList E ring = cmdKeysList E' ring' ↔ ring.outside E = ring'.outside E' := by
  rw [cmdKeysList_eq, cmdKeysList_eq, String.append_right_inj]
  refine ⟨fun same => ?_, fun same => by rw [same]⟩
  have newline : "\n".toList = ['\n'] := rfl
  have lines := close_inj_of_free newline (keyLine_free plain) (keyLine_free plain') same
  exact Std.ExtTreeMap.toList_inj.mp (List.map_injective_iff.mpr keyLine_injective lines)

end

/-- A node's own key. -/
def nodeRing (kind : KeyKind) : Keyring (U8Array 32) :=
  ⟨(∅ : BTreeMap String (KeyEntry (U8Array 32))).insert "node-key" ⟨aliceKey, kind⟩⟩

theorem nodeRing_oneLiners (kind : KeyKind) : OneLiners (nodeRing kind) := by
  intro id known
  obtain same | old := Std.ExtTreeMap.mem_insert.mp known
  · rw [← Std.LawfulEqCmp.compare_eq_iff_eq.mp same]
    decide
  · exact absurd old Std.ExtTreeMap.not_mem_empty

theorem keys_list_tells_kind :
    cmdKeysList (spelledKeys []) (nodeRing .nodeIdentity) ≠
      cmdKeysList (spelledKeys []) (nodeRing .agentSigning) := by
  refine (keys_list_tells (nodeRing_oneLiners _) (nodeRing_oneLiners _)).not.mpr fun same => ?_
  have kinds := congrArg (fun ring : PublicRing => ring["node-key"]?.map Prod.snd) same
  exact absurd kinds (by decide)

section
variable {SigningKey SigningKey' : Type} {E : KeyExternals SigningKey} {E' : KeyExternals SigningKey'}
  {ring : Keyring SigningKey} {ring' : Keyring SigningKey'}

/-- Two runs with the same public keys but other secrets, even of another kind, cannot be told apart by what the
keyring answers and prints, except by the signatures asked for. -/
theorem secrets_stay_inside {calls calls' : List KeyringCall} {answers answers' : List (KeyringCall × KeyringReply)}
    (ran : run (keyringStep E) .new calls = some (answers, ring))
    (ran' : run (keyringStep E') .new calls' = some (answers', ring'))
    (alike : calls.map (·.outside E) = calls'.map (·.outside E')) :
    answers.map (·.2.outside) = answers'.map (·.2.outside) ∧ cmdKeysList E ring = cmdKeysList E' ring' ∧
    ∀ begun id msg sig rest, answers = begun ++ (.sign id msg, .signature sig) :: rest →
      ∃ seed, lastSeed begun id = some seed ∧ sig = E.ed25519.sign (E.fromBytes seed) msg := by
  have seen := run_outside ran
  rw [alike, run_outside ran', Option.some.injEq, Prod.mk.injEq] at seen
  obtain ⟨replies, rings⟩ := seen
  refine ⟨?_, ?_, fun begun id msg sig rest split => signed_by_last ran split⟩
  · have shown := congrArg (List.map Prod.snd) replies
    rw [List.map_map, List.map_map] at shown
    exact shown.symm
  · rw [cmdKeysList_eq, cmdKeysList_eq, rings]

end

/-- A keyring that makes one key of all seeds. -/
def oneKey (key : U8Array 32) (signed : List Bytes) : KeyExternals (U8Array 32) :=
  { spelledKeys signed with fromBytes := fun _ => key }

/-- Another seed for the same public key. -/
theorem secrets_stay_inside_other :
    ∃ answers ring answers' ring',
      run (keyringStep (spelledKeys [blockText])) .new
        [.importSeed "node-key" .nodeIdentity aliceKey, .sign "node-key" blockText, .list] = some (answers, ring) ∧
      run (keyringStep (oneKey aliceKey [])) .new
        [.importSeed "node-key" .nodeIdentity bobKey, .sign "node-key" blockText, .list] = some (answers', ring') ∧
      answers.map (·.2.outside) = answers'.map (·.2.outside) ∧
      cmdKeysList (spelledKeys [blockText]) ring = cmdKeysList (oneKey aliceKey []) ring' := by
  have ran : run (keyringStep (spelledKeys [blockText])) .new
    [.importSeed "node-key" .nodeIdentity aliceKey, .sign "node-key" blockText, .list] = some (_, _) := rfl
  have ran' : run (keyringStep (oneKey aliceKey [])) .new
    [.importSeed "node-key" .nodeIdentity bobKey, .sign "node-key" blockText, .list] = some (_, _) := rfl
  obtain ⟨replies, lists, -⟩ := secrets_stay_inside ran ran' rfl
  exact ⟨_, _, _, _, ran, ran', replies, lists⟩

end KaiOs.Cli
