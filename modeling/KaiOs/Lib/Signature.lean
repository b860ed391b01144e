import Mathlib.Data.Set.Function

/-! Signature schemes, and schemes that sign the digest of a text. The assumptions about
forgeries are relative to what the holder of a key has signed. -/
namespace Signature

structure Scheme (Key Pub Msg Sig : Type*) where
  pub : Key → Pub
  sign : Key → Msg → Sig
  verify : Pub → Msg → Sig → Bool

section Scheme
variable {Key Pub Msg Sig : Type*} (S : Scheme Key Pub Msg Sig)

/-- The holder's signature of the message is accepted. -/
def Scheme.CorrectAt (k : Key) (m : Msg) : Prop := S.verify (S.pub k) m (S.sign k m) = true

/-- Only what has been signed is accepted under the public key. -/
def Scheme.Unforged (p : Pub) (signed : Set Msg) : Prop :=
  ∀ m sig, S.verify p m sig = true → m ∈ signed

/-- Among the holder's signatures, the message accepts only its own. -/
def Scheme.BoundAt (k : Key) (m : Msg) : Prop :=
  ∀ m', S.verify (S.pub k) m (S.sign k m') = true → m' = m

/-- A signature that can be had where each of some holders has signed these messages: whatever message a holder's key
takes it for is one of the holder's. -/
def Scheme.Obtainable {ι : Type*} (keys : ι → Key) (signed : ι → Set Msg) (sig : Sig) : Prop :=
  ∀ i m, S.verify (S.pub (keys i)) m sig = true → m ∈ signed i

end Scheme

section Digest
variable {T D : Type*}

/-- No other text has the digest of one of these. -/
def Unmatched (hash : T → D) (texts : Set T) : Prop := ∀ t ∈ texts, ∀ u, hash u = hash t → u = t

variable {Key Pub Sig : Type*} {S : Scheme Key Pub D Sig} {hash : T → D}

/-- Where digests are signed, only texts whose digest has been signed are accepted. -/
theorem Scheme.Unforged.text {p : Pub} {texts : Set T} (unforged : S.Unforged p (Set.image hash texts))
    (unmatched : Unmatched hash texts) {t : T} {sig : Sig} (ok : S.verify p (hash t) sig = true) :
    t ∈ texts := by
  obtain ⟨u, signed, same⟩ := unforged _ _ ok
  rw [unmatched u signed t same.symm]
  exact signed

end Digest

section Ledger
variable {Key Msg Sig : Type*} [DecidableEq Msg] [DecidableEq Sig]

/-- A scheme that looks up what has been signed. Keys are their own public keys. -/
def ledger (signed : Key → List Msg) (mark : Key → Msg → Sig) : Scheme Key Key Msg Sig where
  pub k := k
  sign := mark
  verify k m sig := decide (m ∈ signed k) && decide (sig = mark k m)

variable {signed : Key → List Msg} {mark : Key → Msg → Sig}

theorem ledger_verify {k : Key} {m : Msg} {sig : Sig} :
    (ledger signed mark).verify k m sig = true ↔ m ∈ signed k ∧ sig = mark k m := by
  simp only [ledger, Bool.and_eq_true, decide_eq_true_eq]

theorem ledger_correct {k : Key} {m : Msg} (member : m ∈ signed k) :
    (ledger signed mark).CorrectAt k m :=
  ledger_verify.mpr ⟨member, rfl⟩

theorem ledger_unforged (k : Key) : (ledger signed mark).Unforged k {m | m ∈ signed k} := by
  intro m sig ok
  exact (ledger_verify.mp ok).1

end Ledger
end Signature
