import KaiOs.Keyring.Keyring

/-! Whole lives of a keyring: when a public key that has left the ring comes back, and when two ids
hold the same one. Both are decided by the seeds that are brought in. -/
namespace KaiOs.Keys
open Utf8 Network Traces

/-- The call brings the seed to an id. -/
def KeyringCall.Brings (seed : U8Array 32) : KeyringCall → Prop
  | .importSeed _ _ s => s = seed
  | .rotate _ s => s = seed
  | _ => False

section
variable {SigningKey : Type} (E : KeyExternals SigningKey)

/-- The answer returns the public key or is a signature that it accepts for some message. -/
def KeyringReply.Shows (public' : U8Array 32) : KeyringReply → Prop
  | .key shown => shown = public'
  | .listed entries => ∃ id kind, (id, public', kind) ∈ entries
  | .signature sig => ∃ msg, verify E public' msg sig = true
  | .revoked | .refused _ => False

/-- No id holds the public key. -/
def Keyring.Lacks (ring : Keyring SigningKey) (public' : U8Array 32) : Prop :=
  ∀ id, ring.publicKey E id ≠ .ok public'

variable {E} {ring next last : Keyring SigningKey}

theorem publicKey_eq_ok {id : String} {key : U8Array 32} :
    ring.publicKey E id = .ok key ↔ ∃ e, ring.keys[id]? = some e ∧ e.public E = key := by
  rw [Keyring.publicKey]
  cases ring.keys[id]? with
  | none => simp only [reduceCtorEq, false_and, exists_false]
  | some e => simp only [Except.ok.injEq, Option.some.injEq, exists_eq_left']

theorem sign_eq_ok {id : String} {msg : Bytes} {sig : U8Array 64} :
    ring.sign E id msg = .ok sig ↔ ∃ e, ring.keys[id]? = some e ∧ E.ed25519.sign e.signing msg = sig := by
  rw [Keyring.sign]
  cases ring.keys[id]? with
  | none => simp only [reduceCtorEq, false_and, exists_false]
  | some e => simp only [Except.ok.injEq, Option.some.injEq, exists_eq_left']

theorem lacks_iff {public' : U8Array 32} :
    ring.Lacks E public' ↔
      ∀ (id : String) (e : KeyEntry SigningKey), ring.keys[id]? = some e → e.public E ≠ public' := by
  refine forall_congr' fun id => ?_
  rw [ne_eq, publicKey_eq_ok, not_exists]
  exact forall_congr' fun e => not_and

theorem Keyring.Lacks.insert {public' : U8Array 32} {keys : BTreeMap String (KeyEntry SigningKey)}
    (lacks : Keyring.Lacks E ⟨keys⟩ public') (id : String) {e : KeyEntry SigningKey}
    (other : e.public E ≠ public') : Keyring.Lacks E ⟨keys.insert id e⟩ public' := by
  rw [lacks_iff] at lacks ⊢
  intro key found held
  rw [lookup_insert] at held
  split_ifs at held with same
  · cases held
    exact other
  · exact lacks key found held

theorem Keyring.Lacks.erase {public' : U8Array 32} {keys : BTreeMap String (KeyEntry SigningKey)}
    (lacks : Keyring.Lacks E ⟨keys⟩ public') (id : String) : Keyring.Lacks E ⟨keys.erase id⟩ public' := by
  rw [lacks_iff] at lacks ⊢
  intro key found held
  rw [lookup_erase] at held
  split_ifs at held with same
  exact lacks key found held

theorem lacks_erase {public' : U8Array 32} {keys : BTreeMap String (KeyEntry SigningKey)} {id : String}
    (alone : ∀ (other : String) (e : KeyEntry SigningKey), keys[other]? = some e → other ≠ id →
      e.public E ≠ public') : Keyring.Lacks E ⟨keys.erase id⟩ public' := by
  rw [lacks_iff]
  intro other e held
  rw [lookup_erase] at held
  split_ifs at held with same
  exact alone other e held (Ne.symm same)

theorem lacks_step {call : KeyringCall} {reply : KeyringReply} {seed : U8Array 32}
    (distinct : Function.Injective E.publicOf) (answered : Answered E ring call reply next)
    (lacks : ring.Lacks E (E.publicOf seed))
    (quiet : call.Brings seed → ∃ error, reply = .refused error) : next.Lacks E (E.publicOf seed) := by
  cases answered with
  | imported keyId kind s unknown =>
      refine lacks.insert keyId fun same => ?_
      obtain ⟨error, refused⟩ := quiet (distinct same)
      cases refused
  | rotated keyId s e held =>
      refine (lacks.erase keyId).insert keyId fun same => ?_
      obtain ⟨error, refused⟩ := quiet (distinct same)
      cases refused
  | revoked keyId e held => exact lacks.erase keyId
  | shown | listed | signed | refused => exact lacks

/-- What is answered comes from the keys the ring holds, or from the seed just brought in. -/
theorem not_shows_step {call : KeyringCall} {reply : KeyringReply} {seed : U8Array 32}
    (distinct : Function.Injective E.publicOf) (own : E.OwnKeyOnly)
    (answered : Answered E ring call reply next) (lacks : ring.Lacks E (E.publicOf seed))
    (quiet : call.Brings seed → ∃ error, reply = .refused error) : ¬ reply.Shows E (E.publicOf seed) := by
  rw [lacks_iff] at lacks
  intro shows
  cases answered with
  | imported keyId kind s unknown | rotated keyId s e held =>
      obtain ⟨error, refused⟩ := quiet (distinct shows)
      cases refused
  | shown keyId e held => exact lacks keyId e held shows
  | listed =>
      obtain ⟨id, kind, member⟩ := shows
      obtain ⟨⟨key, e⟩, found, same⟩ := List.mem_map.mp member
      have held := Std.ExtTreeMap.mem_toList_iff_getElem?_eq_some.mp found
      exact lacks key e held (Prod.mk.inj (Prod.mk.inj same).2).1
  | signed keyId msg e held =>
      obtain ⟨msg', accepted⟩ := shows
      exact lacks keyId e held (own e.signing msg _ msg' accepted).symm
  | revoked | refused => exact shows

/-- A public key that no id holds is not shown again before its seed is brought in again. -/
theorem retired_until_brought (distinct : Function.Injective E.publicOf) (own : E.OwnKeyOnly)
    {later : List KeyringCall} {answers : List (KeyringCall × KeyringReply)} {seed : U8Array 32}
    (gone : ring.Lacks E (E.publicOf seed)) (ran : run (keyringStep E) ring later = some (answers, last))
    (quiet : ∀ call reply, (call, reply) ∈ answers → call.Brings seed → ∃ error, reply = .refused error) :
    ∀ call reply, (call, reply) ∈ answers → ¬ reply.Shows E (E.publicOf seed) := by
  induction later generalizing ring answers with
  | nil =>
      cases ran
      nofun
  | cons first later ih =>
      obtain ⟨r, mid, rest, taken, others, rfl⟩ := run_cons ran
      have answered := keyringStep_answered taken
      have refused := quiet first r List.mem_cons_self
      have still := lacks_step distinct answered gone refused
      have after := ih still others fun call reply member => quiet call reply (List.mem_cons_of_mem _ member)
      intro call reply member
      obtain same | inside := List.mem_cons.mp member
      · cases same
        exact not_shows_step distinct own answered gone refused
      · exact after call reply inside

/-! ## Keys of different ids -/

/-- The seed an id stands for, behind one more answered call. -/
def seedAfter (id : String) (held : Option (U8Array 32)) :
    KeyringCall × KeyringReply → Option (U8Array 32)
  | (.importSeed keyId _ seed, .key _) => if keyId = id then some seed else held
  | (.rotate keyId seed, .key _) => if keyId = id then some seed else held
  | (.revoke keyId, .revoked) => if keyId = id then none else held
  | _ => held

/-- The seed that was last brought to an id and not revoked since. -/
def lastSeed (answers : List (KeyringCall × KeyringReply)) (id : String) : Option (U8Array 32) :=
  answers.foldl (seedAfter id) none

/-- The ring holds the keys of the seeds last brought in. -/
def Derived (E : KeyExternals SigningKey) (past : List (KeyringCall × KeyringReply))
    (ring : Keyring SigningKey) : Prop :=
  ∀ id, ring.keys[id]?.map (·.signing) = (lastSeed past id).map E.fromBytes

theorem derived_new : Derived E [] (.new : Keyring SigningKey) := by
  intro id
  rw [Keyring.new, Std.ExtTreeMap.getElem?_empty]
  rfl

theorem derived_step {past : List (KeyringCall × KeyringReply)} {call : KeyringCall} {reply : KeyringReply}
    (derived : Derived E past ring) (answered : Answered E ring call reply next) :
    Derived E (past ++ [(call, reply)]) next := by
  intro id
  have before := derived id
  rw [lastSeed, List.foldl_append, List.foldl_cons, List.foldl_nil, ← lastSeed]
  cases answered with
  | imported keyId kind s unknown =>
      rw [seedAfter, lookup_insert]
      split_ifs
      · rfl
      · exact before
  | rotated keyId s e held =>
      rw [seedAfter, lookup_insert, lookup_erase]
      split_ifs
      · rfl
      · exact before
  | revoked keyId e held =>
      rw [seedAfter, lookup_erase]
      split_ifs
      · rfl
      · exact before
  | shown | listed | signed => exact before
  | refused error => cases call <;> exact before

theorem derived_run {calls : List KeyringCall} {answers : List (KeyringCall × KeyringReply)}
    (ran : run (keyringStep E) .new calls = some (answers, ring)) : Derived E answers ring :=
  run_keeps (fun _ _ _ _ _ derived taken => derived_step derived (keyringStep_answered taken)) derived_new ran

theorem Derived.publicKey {past : List (KeyringCall × KeyringReply)} (derived : Derived E past ring)
    {id : String} {key : U8Array 32} (held : ring.publicKey E id = .ok key) :
    ∃ seed, lastSeed past id = some seed ∧ E.publicOf seed = key := by
  obtain ⟨e, found, rfl⟩ := publicKey_eq_ok.mp held
  have same := derived id
  rw [found, Option.map_some] at same
  obtain ⟨seed, last, from_seed⟩ := Option.map_eq_some_iff.mp same.symm
  exact ⟨seed, last, congrArg E.ed25519.pub from_seed⟩

/-- Two ids hold one public key exactly when the same seed was last brought to both, and only then
does the key of one accept a signature of the other. -/
theorem keys_shared_iff (distinct : Function.Injective E.publicOf) (own : E.OwnKeyOnly)
    {calls : List KeyringCall} {answers : List (KeyringCall × KeyringReply)}
    (ran : run (keyringStep E) .new calls = some (answers, ring)) {id id' : String} {key key' : U8Array 32}
    (held : ring.publicKey E id = .ok key) (held' : ring.publicKey E id' = .ok key') :
    (key = key' ↔ lastSeed answers id = lastSeed answers id') ∧
    ∀ msg sig msg', ring.sign E id msg = .ok sig → verify E key' msg' sig = true →
      lastSeed answers id = lastSeed answers id' := by
  obtain ⟨seed, last, rfl⟩ := (derived_run ran).publicKey held
  obtain ⟨seed', last', rfl⟩ := (derived_run ran).publicKey held'
  have shared : E.publicOf seed = E.publicOf seed' ↔ lastSeed answers id = lastSeed answers id' := by
    rw [last, last', Option.some_inj]
    exact distinct.eq_iff
  refine ⟨shared, fun msg sig msg' signed accepted => shared.mp ?_⟩
  obtain ⟨e, found, rfl⟩ := sign_eq_ok.mp signed
  obtain ⟨e', found', public'⟩ := publicKey_eq_ok.mp held
  cases found.symm.trans found'
  rw [← public']
  exact (own e.signing msg _ msg' accepted).symm

end

/-! ## Two seeds -/

/-- Keys that are their own public keys and spell out what they sign. -/
def spelledKeys (signed : List Bytes) : KeyExternals (U8Array 32) where
  fromBytes seed := seed
  ed25519 := Signature.ledger (fun _ => signed) mark

theorem spelledKeys_distinct (signed : List Bytes) : Function.Injective (spelledKeys signed).publicOf :=
  fun _ _ same => same

theorem spelledKeys_own (signed : List Bytes) : (spelledKeys signed).OwnKeyOnly :=
  fun _ _ _ _ accepted => (mark_key (Signature.ledger_verify.mp accepted).2).symm

/-- A text of 32 bytes. -/
def blockText : Bytes := List.replicate 32 66

/-- The ring behind the revocation of its only key. -/
def revokedRing : Keyring (U8Array 32) :=
  ⟨((∅ : BTreeMap String (KeyEntry (U8Array 32))).insert "node-key" ⟨aliceKey, .nodeIdentity⟩).erase "node-key"⟩

theorem revokedRing_lacks (signed : List Bytes) : revokedRing.Lacks (spelledKeys signed) aliceKey := by
  refine lacks_erase fun other e held away => ?_
  rw [lookup_insert, if_neg (Ne.symm away), Std.ExtTreeMap.getElem?_empty] at held
  cases held

theorem retired_under_new_seed :
    ∃ answers last, run (keyringStep (spelledKeys [blockText])) revokedRing
        [.importSeed "node-key" .nodeIdentity bobKey, .sign "node-key" blockText, .list] = some (answers, last) ∧
      answers.map Prod.snd = [.key bobKey, .signature (mark bobKey blockText),
        .listed [("node-key", bobKey, .nodeIdentity)]] ∧
      ∀ call reply, (call, reply) ∈ answers → ¬ reply.Shows (spelledKeys [blockText]) aliceKey := by
  have ran : run (keyringStep (spelledKeys [blockText])) revokedRing
      [.importSeed "node-key" .nodeIdentity bobKey, .sign "node-key" blockText, .list] = some (_, _) := rfl
  refine ⟨_, _, ran, rfl, ?_⟩
  refine retired_until_brought (spelledKeys_distinct _) (spelledKeys_own _) (revokedRing_lacks _) ran ?_
  intro call reply member brings
  have other : bobKey ≠ aliceKey := by decide
  simp only [List.mem_cons, Prod.mk.injEq, List.not_mem_nil, or_false] at member
  obtain ⟨rfl, -⟩ | ⟨rfl, -⟩ | ⟨rfl, -⟩ := member
  · exact absurd brings other
  · exact brings.elim
  · exact brings.elim

/-- The seed of a revoked key is imported again, and the key is back. -/
theorem revoked_comes_back :
    Function.Injective (spelledKeys [blockText]).publicOf ∧
    run (keyringStep (spelledKeys [blockText])) .new
        [.importSeed "node-key" .nodeIdentity aliceKey, .revoke "node-key"] =
      some ([(.importSeed "node-key" .nodeIdentity aliceKey, .key aliceKey), (.revoke "node-key", .revoked)],
        revokedRing) ∧
    (revokedRing.publicKey (spelledKeys [blockText]) "node-key" = .error (.unknownKey "node-key")) ∧
    (run (keyringStep (spelledKeys [blockText])) revokedRing
        [.importSeed "node-key" .nodeIdentity aliceKey, .sign "node-key" blockText]).map Prod.fst =
      some [(.importSeed "node-key" .nodeIdentity aliceKey, .key aliceKey),
        (.sign "node-key" blockText, .signature (mark aliceKey blockText))] ∧
    verify (spelledKeys [blockText]) aliceKey blockText (mark aliceKey blockText) = true :=
  ⟨spelledKeys_distinct _, rfl, rfl, rfl, by decide⟩

/-- A ring whose two ids have got different seeds. -/
theorem keys_apart :
    ∃ answers ring, run (keyringStep (spelledKeys [blockText])) .new
        [.importSeed "node-key" .nodeIdentity aliceKey, .importSeed "agent-key" .agentSigning bobKey] =
        some (answers, ring) ∧
      ring.publicKey (spelledKeys [blockText]) "agent-key" = .ok bobKey ∧
      ring.publicKey (spelledKeys [blockText]) "node-key" = .ok aliceKey ∧
      (bobKey = aliceKey ↔ lastSeed answers "agent-key" = lastSeed answers "node-key") ∧
      ∀ msg sig msg', ring.sign (spelledKeys [blockText]) "agent-key" msg = .ok sig →
        verify (spelledKeys [blockText]) aliceKey msg' sig = true →
        lastSeed answers "agent-key" = lastSeed answers "node-key" := by
  have ran : run (keyringStep (spelledKeys [blockText])) .new
      [.importSeed "node-key" .nodeIdentity aliceKey, .importSeed "agent-key" .agentSigning bobKey] =
    some (_, _) := rfl
  exact ⟨_, _, ran, rfl, rfl, keys_shared_iff (spelledKeys_distinct _) (spelledKeys_own _) ran rfl rfl⟩

/-- One seed under two ids: the node's key accepts what the agent signs. -/
theorem seed_shared :
    (spelledKeys [blockText]).OwnKeyOnly ∧
    ∃ answers ring, run (keyringStep (spelledKeys [blockText])) .new
        [.importSeed "node-key" .nodeIdentity aliceKey, .importSeed "agent-key" .agentSigning aliceKey] =
        some (answers, ring) ∧
      ring.publicKey (spelledKeys [blockText]) "node-key" = .ok aliceKey ∧
      ring.publicKey (spelledKeys [blockText]) "agent-key" = .ok aliceKey ∧
      ring.sign (spelledKeys [blockText]) "agent-key" blockText = .ok (mark aliceKey blockText) ∧
      verify (spelledKeys [blockText]) aliceKey blockText (mark aliceKey blockText) = true :=
  ⟨spelledKeys_own _, _, _, rfl, rfl, rfl, rfl, by decide⟩

end KaiOs.Keys
