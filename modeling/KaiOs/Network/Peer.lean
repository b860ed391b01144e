import KaiOs.Lib.Sha256
import KaiOs.Lib.Signature

/-! `network/src/peer.rs`: the identity of a peer. `sha2` and `ed25519_dalek` are
parameters. -/
namespace KaiOs.Network
open Utf8 Fields

/-- `[u8; n]` -/
abbrev U8Array (n : ℕ) := {bs : Bytes // bs.length = n}

/-- `Vec<u8>` to `[u8; n]` with `try_into`. -/
def tryInto (n : ℕ) (bs : Bytes) : Option (U8Array n) :=
  if h : bs.length = n then some ⟨bs, h⟩ else none

@[simp] theorem tryInto_val {n : ℕ} (a : U8Array n) : tryInto n a.val = some a := by
  unfold tryInto
  rw [dif_pos a.property]

/-- What the crate takes from other packages. Keypairs sign byte strings of any length. -/
structure CryptoExternals (Keypair : Type) where
  sha256 : Bytes → U8Array 32
  ed25519 : Signature.Scheme Keypair (U8Array 32) Bytes (U8Array 64)

/-- `Sha256::digest(input).to_vec()` -/
def CryptoExternals.digest {Keypair : Type} (E : CryptoExternals Keypair) (input : Bytes) : Bytes :=
  (E.sha256 input).val

/-- `format!("{b:02x}")` -/
def hexByte (b : UInt8) : List Char := [Nat.digitChar (b.toNat / 16), Nat.digitChar (b.toNat % 16)]

def hex (bytes : Bytes) : String := String.ofList (bytes.flatMap hexByte)

section
variable {Keypair : Type} (E : CryptoExternals Keypair)

def publicBytes (k : Keypair) : U8Array 32 := E.ed25519.pub k

def sign (k : Keypair) (msg : Bytes) : U8Array 64 := E.ed25519.sign k msg

def verifySignature (pub : U8Array 32) (msg : Bytes) (sig : U8Array 64) : Bool :=
  E.ed25519.verify pub msg sig

def peerId (k : Keypair) : String := hex (publicBytes E k).val

end

theorem hexByte_inj {a b : UInt8} (h : hexByte a = hexByte b) : a = b := by
  have digit : ∀ x < 16, ∀ y < 16, Nat.digitChar x = Nat.digitChar y → x = y := by decide
  simp only [hexByte, List.cons.injEq] at h
  have high := digit _ (by have := a.toNat_lt; omega) _ (by have := b.toNat_lt; omega) h.1
  have low := digit _ (Nat.mod_lt _ (by decide)) _ (Nat.mod_lt _ (by decide)) h.2.1
  apply UInt8.toNat_inj.mp
  omega

theorem hex_inj : Function.Injective hex := by
  intro a b h
  replace h := String.ofList_injective h
  induction a generalizing b with
  | nil =>
      cases b with
      | nil => rfl
      | cons y b => simp [hexByte] at h
  | cons x a ih =>
      cases b with
      | nil => simp [hexByte] at h
      | cons y b =>
          obtain ⟨first, rest⟩ := List.append_inj h rfl
          rw [hexByte_inj first, ih rest]

theorem free_hex {c : Char} (other : ∀ n < 16, c ≠ Nat.digitChar n) (bytes : Bytes) : Free c (hex bytes) := by
  intro member
  rw [hex, String.toList_ofList, List.mem_flatMap] at member
  obtain ⟨b, _, inside⟩ := member
  simp only [hexByte, List.mem_cons, List.not_mem_nil, or_false] at inside
  rcases inside with high | low
  · exact other _ (by have := b.toNat_lt; omega) high
  · exact other _ (Nat.mod_lt _ (by decide)) low

section Pinned

/-- A signature that spells its key and the digest that is signed. -/
def mark (k : U8Array 32) (msg : Bytes) : U8Array 64 :=
  if h : msg.length = 32 then ⟨k.val ++ msg, by rw [List.length_append, k.property, h]⟩
  else ⟨k.val ++ List.replicate 32 0, by rw [List.length_append, k.property, List.length_replicate]⟩

theorem mark_take (k : U8Array 32) (msg : Bytes) : (mark k msg).val.take 32 = k.val := by
  rw [mark]
  split
  · exact List.take_left' k.property
  · exact List.take_left' k.property

theorem mark_key {k k' : U8Array 32} {msg msg' : Bytes} (same : mark k msg = mark k' msg') : k = k' := by
  apply Subtype.ext
  rw [← mark_take k msg, ← mark_take k' msg', same]

/-- SHA-256 on the given inputs and one other value elsewhere. Every key has signed the
digests of the inputs. -/
def pinned (inputs : List Bytes) : CryptoExternals (U8Array 32) where
  sha256 input :=
    if input ∈ inputs then ⟨Sha256.digestBytes input, Sha256.digestBytes_length input⟩
    else ⟨List.replicate 32 0, List.length_replicate⟩
  ed25519 := Signature.ledger (fun _ => inputs.map Sha256.digestBytes) mark

variable {inputs : List Bytes}

theorem pinned_digest {input : Bytes} (member : input ∈ inputs) :
    (pinned inputs).digest input = Sha256.digestBytes input := by
  simp only [CryptoExternals.digest, pinned, if_pos member]

/-- Without a collision among the inputs, nothing else has the digest of one. -/
theorem pinned_unmatched (distinct : ∀ x ∈ inputs, ∀ y ∈ inputs,
    Sha256.digestBytes x = Sha256.digestBytes y → x = y)
    (other : ∀ x ∈ inputs, Sha256.digestBytes x ≠ List.replicate 32 0) :
    Signature.Unmatched (pinned inputs).digest {x | x ∈ inputs} := by
  intro x member y same
  rw [pinned_digest member] at same
  by_cases member' : y ∈ inputs
  · rw [pinned_digest member'] at same
    exact distinct y member' x member same
  · simp only [CryptoExternals.digest, pinned, if_neg member'] at same
    exact absurd same.symm (other x member)

theorem pinned_unforged (k : U8Array 32) : (pinned inputs).ed25519.Unforged k
    (Set.image (pinned inputs).digest {x | x ∈ inputs}) := by
  intro msg sig ok
  obtain ⟨x, member, rfl⟩ := List.mem_map.mp (Signature.ledger_unforged k msg sig ok)
  exact ⟨x, member, pinned_digest member⟩

theorem pinned_correct (k : U8Array 32) {input : Bytes} (member : input ∈ inputs) :
    (pinned inputs).ed25519.CorrectAt k ((pinned inputs).digest input) := by
  rw [pinned_digest member]
  exact Signature.ledger_correct (List.mem_map_of_mem member)

theorem pinned_bound (k : U8Array 32) {input : Bytes} (member : input ∈ inputs)
    (other : Sha256.digestBytes input ≠ List.replicate 32 0) :
    (pinned inputs).ed25519.BoundAt k ((pinned inputs).digest input) := by
  intro msg ok
  rw [pinned_digest member] at ok ⊢
  have same := congrArg Subtype.val (Signature.ledger_verify.mp ok).2
  simp only [pinned, Signature.ledger, mark, dif_pos (Sha256.digestBytes_length input)] at same
  split_ifs at same with length
  · exact List.append_cancel_left same
  · exact absurd (List.append_cancel_left same).symm other

def aliceKey : U8Array 32 := ⟨List.replicate 32 1, rfl⟩

def bobKey : U8Array 32 := ⟨List.replicate 32 7, rfl⟩

end Pinned
end KaiOs.Network
