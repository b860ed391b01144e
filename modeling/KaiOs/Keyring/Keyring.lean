import KaiOs.Lib.Traces
import KaiOs.Network.Peer
import KaiOs.State.Merkle

/-! `keyring/src/keyring.rs`: Ed25519 keys by their ids. Keys are made from seeds; only public keys
and signatures are handed out. `ed25519_dalek` is a parameter. -/
namespace KaiOs.Keys
open Utf8 Network Traces

inductive KeyKind where
  | nodeIdentity
  | agentSigning
  deriving DecidableEq

inductive KeyringError where
  | unknownKey (id : String)
  | keyRevoked (id : String)
  | duplicateKey (id : String)
  deriving DecidableEq

/-- What the crate takes from other packages. -/
structure KeyExternals (SigningKey : Type) where
  fromBytes : U8Array 32 → SigningKey
  ed25519 : Signature.Scheme SigningKey (U8Array 32) Bytes (U8Array 64)

structure KeyEntry (SigningKey : Type) where
  signing : SigningKey
  kind : KeyKind

structure Keyring (SigningKey : Type) where
  keys : BTreeMap String (KeyEntry SigningKey)

section
variable {SigningKey : Type} (E : KeyExternals SigningKey)

/-- The public key that belongs to a seed. -/
def KeyExternals.publicOf (seed : U8Array 32) : U8Array 32 := E.ed25519.pub (E.fromBytes seed)

/-- A signature is accepted under no other key than the one it is made with. -/
def KeyExternals.OwnKeyOnly : Prop := ∀ key msg public' msg',
  E.ed25519.verify public' msg' (E.ed25519.sign key msg) = true → public' = E.ed25519.pub key

/-- `verifying_key().to_bytes()` -/
def KeyEntry.public (e : KeyEntry SigningKey) : U8Array 32 := E.ed25519.pub e.signing

/-- `keyring::verify` -/
def verify (public' : U8Array 32) (msg : Bytes) (sig : U8Array 64) : Bool := E.ed25519.verify public' msg sig

namespace Keyring
variable (ring : Keyring SigningKey)

def new : Keyring SigningKey := ⟨∅⟩

def importSeed (keyId : String) (kind : KeyKind) (seed : U8Array 32) :
    Except KeyringError (U8Array 32 × Keyring SigningKey) :=
  if ring.keys.contains keyId then .error (.duplicateKey keyId)
  else
    let entry : KeyEntry SigningKey := ⟨E.fromBytes seed, kind⟩
    .ok (entry.public E, ⟨ring.keys.insert keyId entry⟩)

def list : List (String × U8Array 32 × KeyKind) :=
  ring.keys.toList.map fun (id, e) => (id, e.public E, e.kind)

def publicKey (keyId : String) : Except KeyringError (U8Array 32) :=
  match ring.keys[keyId]? with
  | some e => .ok (e.public E)
  | none => .error (.unknownKey keyId)

def sign (keyId : String) (msg : Bytes) : Except KeyringError (U8Array 64) :=
  match ring.keys[keyId]? with
  | some e => .ok (E.ed25519.sign e.signing msg)
  | none => .error (.unknownKey keyId)

def revoke (keyId : String) : Except KeyringError (Keyring SigningKey) :=
  match ring.keys[keyId]? with
  | some _ => .ok ⟨ring.keys.erase keyId⟩
  | none => .error (.unknownKey keyId)

def rotate (keyId : String) (newSeed : U8Array 32) : Except KeyringError (U8Array 32 × Keyring SigningKey) :=
  match ring.keys[keyId]? with
  | some e =>
      let entry : KeyEntry SigningKey := ⟨E.fromBytes newSeed, e.kind⟩
      .ok (entry.public E, ⟨(ring.keys.erase keyId).insert keyId entry⟩)
  | none => .error (.unknownKey keyId)

end Keyring
end

inductive KeyringCall where
  | importSeed (keyId : String) (kind : KeyKind) (seed : U8Array 32)
  | rotate (keyId : String) (seed : U8Array 32)
  | revoke (keyId : String)
  | publicKey (keyId : String)
  | list
  | sign (keyId : String) (msg : Bytes)

inductive KeyringReply where
  | key (public' : U8Array 32)
  | revoked
  | listed (entries : List (String × U8Array 32 × KeyKind))
  | signature (sig : U8Array 64)
  | refused (error : KeyringError)
  deriving DecidableEq

section
variable {SigningKey : Type} (E : KeyExternals SigningKey)

/-- The call as a step: what it answers, and the ring behind it. -/
def keyringStep (ring : Keyring SigningKey) : KeyringCall → Option (KeyringReply × Keyring SigningKey)
  | .importSeed keyId kind seed => some (match ring.importSeed E keyId kind seed with
      | .ok (key, next) => (.key key, next)
      | .error e => (.refused e, ring))
  | .rotate keyId seed => some (match ring.rotate E keyId seed with
      | .ok (key, next) => (.key key, next)
      | .error e => (.refused e, ring))
  | .revoke keyId => some (match ring.revoke keyId with
      | .ok next => (.revoked, next)
      | .error e => (.refused e, ring))
  | .publicKey keyId => some (match ring.publicKey E keyId with
      | .ok key => (.key key, ring)
      | .error e => (.refused e, ring))
  | .list => some (.listed (ring.list E), ring)
  | .sign keyId msg => some (match ring.sign E keyId msg with
      | .ok sig => (.signature sig, ring)
      | .error e => (.refused e, ring))

/-- The ways in which a call can end. -/
inductive Answered (ring : Keyring SigningKey) : KeyringCall → KeyringReply → Keyring SigningKey → Prop
  | imported (keyId : String) (kind : KeyKind) (seed : U8Array 32) (unknown : ring.keys[keyId]? = none) :
      Answered ring (.importSeed keyId kind seed) (.key (E.publicOf seed))
        ⟨ring.keys.insert keyId ⟨E.fromBytes seed, kind⟩⟩
  | rotated (keyId : String) (seed : U8Array 32) (e : KeyEntry SigningKey) (held : ring.keys[keyId]? = some e) :
      Answered ring (.rotate keyId seed) (.key (E.publicOf seed))
        ⟨(ring.keys.erase keyId).insert keyId ⟨E.fromBytes seed, e.kind⟩⟩
  | revoked (keyId : String) (e : KeyEntry SigningKey) (held : ring.keys[keyId]? = some e) :
      Answered ring (.revoke keyId) .revoked ⟨ring.keys.erase keyId⟩
  | shown (keyId : String) (e : KeyEntry SigningKey) (held : ring.keys[keyId]? = some e) :
      Answered ring (.publicKey keyId) (.key (e.public E)) ring
  | listed : Answered ring .list (.listed (ring.list E)) ring
  | signed (keyId : String) (msg : Bytes) (e : KeyEntry SigningKey) (held : ring.keys[keyId]? = some e) :
      Answered ring (.sign keyId msg) (.signature (E.ed25519.sign e.signing msg)) ring
  | refused (call : KeyringCall) (error : KeyringError) : Answered ring call (.refused error) ring

variable {E} {ring next : Keyring SigningKey}

theorem importSeed_unknown {keyId : String} (unknown : ring.keys[keyId]? = none) (kind : KeyKind)
    (seed : U8Array 32) : ring.importSeed E keyId kind seed =
      .ok (E.publicOf seed, ⟨ring.keys.insert keyId ⟨E.fromBytes seed, kind⟩⟩) := by
  have absent : ring.keys.contains keyId = false := by
    rw [Std.ExtTreeMap.contains_eq_isSome_getElem?, unknown, Option.isSome_none]
  rw [Keyring.importSeed, absent]
  rfl

theorem importSeed_known {keyId : String} {e : KeyEntry SigningKey} (held : ring.keys[keyId]? = some e)
    (kind : KeyKind) (seed : U8Array 32) :
    ring.importSeed E keyId kind seed = .error (.duplicateKey keyId) := by
  have present : ring.keys.contains keyId = true := by
    rw [Std.ExtTreeMap.contains_eq_isSome_getElem?, held, Option.isSome_some]
  rw [Keyring.importSeed, present]
  rfl

theorem keyringStep_answered {call : KeyringCall} {reply : KeyringReply}
    (taken : keyringStep E ring call = some (reply, next)) : Answered E ring call reply next := by
  cases call with
  | importSeed keyId kind seed =>
      rw [keyringStep] at taken
      cases held : ring.keys[keyId]? with
      | none =>
          rw [importSeed_unknown held] at taken
          cases taken
          exact .imported keyId kind seed held
      | some e =>
          rw [importSeed_known held] at taken
          cases taken
          exact .refused _ _
  | list =>
      cases taken
      exact .listed
  | rotate keyId seed =>
      rw [keyringStep, Keyring.rotate] at taken
      cases held : ring.keys[keyId]? with
      | none =>
          rw [held] at taken
          cases taken
          exact .refused _ _
      | some e =>
          rw [held] at taken
          cases taken
          exact .rotated keyId seed e held
  | revoke keyId =>
      rw [keyringStep, Keyring.revoke] at taken
      cases held : ring.keys[keyId]? with
      | none =>
          rw [held] at taken
          cases taken
          exact .refused _ _
      | some e =>
          rw [held] at taken
          cases taken
          exact .revoked keyId e held
  | publicKey keyId =>
      rw [keyringStep, Keyring.publicKey] at taken
      cases held : ring.keys[keyId]? with
      | none =>
          rw [held] at taken
          cases taken
          exact .refused _ _
      | some e =>
          rw [held] at taken
          cases taken
          exact .shown keyId e held
  | sign keyId msg =>
      rw [keyringStep, Keyring.sign] at taken
      cases held : ring.keys[keyId]? with
      | none =>
          rw [held] at taken
          cases taken
          exact .refused _ _
      | some e =>
          rw [held] at taken
          cases taken
          exact .signed keyId msg e held

end
end KaiOs.Keys
