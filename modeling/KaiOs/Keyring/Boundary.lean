import KaiOs.Keyring.KeyringRuns

/-! What leaves a keyring. Its callers see a ring of public keys, and of the secrets nothing but the signatures they
ask for. -/
namespace KaiOs.Keys
open Utf8 Network Traces

/-- A call without its seed. -/
inductive OutsideCall where
  | bring (keyId : String) (kind : KeyKind) (key : U8Array 32)
  | replace (keyId : String) (key : U8Array 32)
  | revoke (keyId : String)
  | publicKey (keyId : String)
  | list
  | sign (keyId : String) (msg : Bytes)

inductive OutsideReply where
  | key (public' : U8Array 32)
  | revoked
  | listed (entries : List (String × U8Array 32 × KeyKind))
  | signed
  | refused (error : KeyringError)
  deriving DecidableEq

/-- Public keys by their ids. -/
abbrev PublicRing := BTreeMap String (U8Array 32 × KeyKind)

/-- A keyring that has no secrets. -/
def outsideStep (ring : PublicRing) : OutsideCall → Option (OutsideReply × PublicRing)
  | .bring keyId kind key => some (match ring[keyId]? with
      | some _ => (.refused (.duplicateKey keyId), ring)
      | none => (.key key, ring.insert keyId (key, kind)))
  | .replace keyId key => some (match ring[keyId]? with
      | some (_, kind) => (.key key, ring.insert keyId (key, kind))
      | none => (.refused (.unknownKey keyId), ring))
  | .revoke keyId => some (match ring[keyId]? with
      | some _ => (.revoked, ring.erase keyId)
      | none => (.refused (.unknownKey keyId), ring))
  | .publicKey keyId => some (match ring[keyId]? with
      | some (key, _) => (.key key, ring)
      | none => (.refused (.unknownKey keyId), ring))
  | .list => some (.listed ring.toList, ring)
  | .sign keyId _ => some (match ring[keyId]? with
      | some _ => (.signed, ring)
      | none => (.refused (.unknownKey keyId), ring))

def KeyringReply.outside : KeyringReply → OutsideReply
  | .key public' => .key public'
  | .revoked => .revoked
  | .listed entries => .listed entries
  | .signature _ => .signed
  | .refused error => .refused error

section
variable {SigningKey : Type} (E : KeyExternals SigningKey)

def KeyringCall.outside : KeyringCall → OutsideCall
  | .importSeed keyId kind seed => .bring keyId kind (E.publicOf seed)
  | .rotate keyId seed => .replace keyId (E.publicOf seed)
  | .revoke keyId => .revoke keyId
  | .publicKey keyId => .publicKey keyId
  | .list => .list
  | .sign keyId msg => .sign keyId msg

def KeyEntry.outside (e : KeyEntry SigningKey) : U8Array 32 × KeyKind := (e.public E, e.kind)

def Keyring.outside (ring : Keyring SigningKey) : PublicRing := ring.keys.map fun _ e => e.outside E

variable {E} {ring next last : Keyring SigningKey} {keys : BTreeMap String (KeyEntry SigningKey)}

theorem outside_new : (Keyring.new : Keyring SigningKey).outside E = ∅ := by
  refine Std.ExtTreeMap.ext_getElem? fun id => ?_
  rw [Keyring.outside, Std.ExtTreeMap.getElem?_map, Keyring.new, Std.ExtTreeMap.getElem?_empty,
    Std.ExtTreeMap.getElem?_empty]
  rfl

theorem outside_get (id : String) : (ring.outside E)[id]? = ring.keys[id]?.map (·.outside E) :=
  Std.ExtTreeMap.getElem?_map

theorem outside_insert (id : String) (e : KeyEntry SigningKey) :
    Keyring.outside E ⟨keys.insert id e⟩ = (Keyring.outside E ⟨keys⟩).insert id (e.outside E) := by
  refine Std.ExtTreeMap.ext_getElem? fun other => ?_
  rw [lookup_insert, outside_get, outside_get, lookup_insert]
  split_ifs
  · rfl
  · rfl

theorem outside_erase (id : String) :
    Keyring.outside E ⟨keys.erase id⟩ = (Keyring.outside E ⟨keys⟩).erase id := by
  refine Std.ExtTreeMap.ext_getElem? fun other => ?_
  rw [lookup_erase, outside_get, outside_get, lookup_erase]
  split_ifs
  · rfl
  · rfl

theorem outside_list : ring.list E = (ring.outside E).toList := by
  rw [Keyring.outside, Std.ExtTreeMap.toList_map]
  rfl

theorem keyringStep_outside (ring : Keyring SigningKey) (call : KeyringCall) (reply : KeyringReply)
    (next : Keyring SigningKey) (taken : keyringStep E ring call = some (reply, next)) :
    outsideStep (ring.outside E) (call.outside E) = some (reply.outside, next.outside E) := by
  have seen (id : String) : (ring.outside E)[id]? = ring.keys[id]?.map (·.outside E) := outside_get id
  cases call with
  | importSeed keyId kind seed =>
      rw [KeyringCall.outside, outsideStep, seen]
      rw [keyringStep] at taken
      cases held : ring.keys[keyId]? with
      | none =>
          rw [importSeed_unknown held] at taken
          cases taken
          rw [outside_insert]
          rfl
      | some e =>
          rw [importSeed_known held] at taken
          cases taken
          rfl
  | rotate keyId seed =>
      rw [KeyringCall.outside, outsideStep, seen]
      rw [keyringStep, Keyring.rotate] at taken
      cases held : ring.keys[keyId]? with
      | none =>
          rw [held] at taken
          cases taken
          rfl
      | some e =>
          rw [held] at taken
          cases taken
          rw [outside_insert, outside_erase]
          have afresh (public' : U8Array 32 × KeyKind) :
              ((ring.outside E).erase keyId).insert keyId public' = (ring.outside E).insert keyId public' := by
            refine Std.ExtTreeMap.ext_getElem? fun other => ?_
            rw [lookup_insert, lookup_insert, lookup_erase]
            split_ifs <;> rfl
          rw [afresh]
          rfl
  | revoke keyId =>
      rw [KeyringCall.outside, outsideStep, seen]
      rw [keyringStep, Keyring.revoke] at taken
      cases held : ring.keys[keyId]? with
      | none =>
          rw [held] at taken
          cases taken
          rfl
      | some e =>
          rw [held] at taken
          cases taken
          rw [outside_erase]
          rfl
  | publicKey keyId =>
      rw [KeyringCall.outside, outsideStep, seen]
      rw [keyringStep, Keyring.publicKey] at taken
      cases held : ring.keys[keyId]? with
      | none | some e =>
          rw [held] at taken
          cases taken
          rfl
  | list =>
      cases taken
      rw [KeyringReply.outside, outside_list]
      rfl
  | sign keyId msg =>
      rw [KeyringCall.outside, outsideStep, seen]
      rw [keyringStep, Keyring.sign] at taken
      cases held : ring.keys[keyId]? with
      | none | some e =>
          rw [held] at taken
          cases taken
          rfl

variable {calls : List KeyringCall} {answers : List (KeyringCall × KeyringReply)}

/-- A keyring is, for everybody outside, a ring of public keys. -/
theorem run_outside (ran : run (keyringStep E) .new calls = some (answers, ring)) :
    run outsideStep ∅ (calls.map (·.outside E)) =
      some (answers.map (Prod.map (·.outside E) (·.outside)), ring.outside E) := by
  rw [← outside_new (E := E)]
  exact run_view keyringStep_outside ran

/-- What is not public in the answers: signatures of the seeds last brought in, on what was to be signed. -/
theorem signed_by_last (ran : run (keyringStep E) .new calls = some (answers, ring))
    {begun rest : List (KeyringCall × KeyringReply)} {id : String} {msg : Bytes} {sig : U8Array 64}
    (split : answers = begun ++ (.sign id msg, .signature sig) :: rest) :
    ∃ seed, lastSeed begun id = some seed ∧ sig = E.ed25519.sign (E.fromBytes seed) msg := by
  subst split
  obtain ⟨mid, next, first, taken, -⟩ := run_split ran
  have derived := derived_run first id
  cases keyringStep_answered taken with
  | signed _ _ e held =>
      rw [held, Option.map_some] at derived
      obtain ⟨seed, last, from_seed⟩ := Option.map_eq_some_iff.mp derived.symm
      exact ⟨seed, last, by rw [from_seed]⟩

end
end KaiOs.Keys
