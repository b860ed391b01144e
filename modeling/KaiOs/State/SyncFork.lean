import KaiOs.State.SyncAgreement

/-! A block on a height the engine knows: the same block again, or a fork. The engine
compares hashes, and the hashed text does not mark where a transaction ends. -/
namespace KaiOs
open Fields
namespace SyncEngine

section
variable (shaHex : String → String)

/-- The answer meant for `b` when `a` has been accepted on its height. -/
structure TellsFork (e : SyncEngine) (a b : Block) : Prop where
  duplicate : (e.applyBlock shaHex b).2 = .error (.duplicate b.height) ↔ b = a
  fork : b ≠ a →
    (e.applyBlock shaHex b).2 = .error (.fork b.height (a.blockHash shaHex) (b.blockHash shaHex))

end

/-- Another block with the same text, cut into other fields. -/
structure Recut (a b : Block) : Prop where
  other : b ≠ a
  text : b.preimage = a.preimage

variable {shaHex : String → String}

/-- On a known height the answer depends on the hashes only. -/
theorem applyBlock_known {e : SyncEngine} {a b : Block}
    (known : e.applied[b.height]? = some (a.blockHash shaHex)) :
    (e.applyBlock shaHex b).2 =
      if b.blockHash shaHex = a.blockHash shaHex then .error (.duplicate b.height)
      else .error (.fork b.height (a.blockHash shaHex) (b.blockHash shaHex)) := by
  simp only [applyBlock, known, ne_eq, eq_comm (a := b.blockHash shaHex), ite_not]
  split_ifs
  · rfl
  · rfl

theorem tellsFork_iff {e : SyncEngine} {a b : Block}
    (known : e.applied[b.height]? = some (a.blockHash shaHex))
    (inj : Set.InjOn shaHex {a.preimage, b.preimage}) :
    TellsFork shaHex e a b ↔ ¬ Recut a b := by
  have answer := applyBlock_known known
  constructor
  · intro tells recut
    have same : b.blockHash shaHex = a.blockHash shaHex := congrArg shaHex recut.text
    rw [if_pos same] at answer
    exact recut.other (tells.duplicate.mp answer)
  · intro plain
    by_cases same : b = a
    · rw [same, if_pos rfl] at answer
      refine ⟨iff_of_true ?_ same, fun other => absurd same other⟩
      rw [same]
      exact answer
    · have differ : b.blockHash shaHex ≠ a.blockHash shaHex := by
        intro hashes
        exact plain ⟨same, inj (.inr rfl) (.inl rfl) hashes⟩
      rw [if_neg differ] at answer
      refine ⟨iff_of_false ?_ same, fun _ => answer⟩
      rw [answer]
      intro absurd
      cases absurd

/-- Every known height has an accepted block, and a call there tells it from all blocks but
its recuts. -/
theorem run_tellsFork_iff {start : StateStore} {blocks : List Block} {b : Block}
    (inj : Set.InjOn shaHex {t | ∃ a ∈ b :: (run shaHex start blocks).2, t = a.preimage})
    (born : 1 ≤ b.height) (below : b.height ≤ (run shaHex start blocks).1.tipHeight) :
    (∃ a ∈ (run shaHex start blocks).2, a.height = b.height) ∧
    ∀ a ∈ (run shaHex start blocks).2, a.height = b.height →
      (TellsFork shaHex (run shaHex start blocks).1 a b ↔ ¬ Recut a b) := by
  have chain := run_chain shaHex start blocks
  constructor
  · have inside : b.height - 1 < (run shaHex start blocks).2.length := by
      rw [← chain.tipHeight]
      omega
    have height := chain.heights _ _ (List.getElem?_eq_getElem inside)
    exact ⟨_, List.getElem_mem inside, height.trans (Nat.sub_add_cancel born)⟩
  · intro a member height
    refine tellsFork_iff ?_ (inj.mono ?_)
    · rw [← height]
      exact chain.block_hash member
    · rintro t (rfl | rfl)
      · exact ⟨a, .tail _ member, rfl⟩
      · exact ⟨b, .head _, rfl⟩

/-- No field of the transaction holds a separator of the text around it. -/
def TxPlain : Tx → Prop
  | .set key value => Free '=' key ∧ Free ';' key ∧ Free ';' value
  | .remove key => Free ';' key

theorem txLine_free {t : Tx} (plain : TxPlain t) : Free ';' t.line ∧ t.line ≠ "" := by
  constructor
  · unfold Free
    cases t with
    | set key value =>
        simp only [Tx.line, String.toList_append, List.mem_append, not_or]
        exact ⟨⟨⟨by decide, plain.2.1⟩, by decide⟩, plain.2.2⟩
    | remove key =>
        simp only [Tx.line, String.toList_append, List.mem_append, not_or]
        exact ⟨by decide, plain⟩
  · cases t with
    | set key value => simp [Tx.line]
    | remove key => simp [Tx.line]

theorem txLine_inj {t u : Tx} (plain : TxPlain t) (plain' : TxPlain u) (same : t.line = u.line) : t = u := by
  cases t with
  | set key value =>
      cases u with
      | set key' value' =>
          have fields : key ++ "=" ++ value = key' ++ "=" ++ value' := by
            apply (String.append_right_inj "set:").mp
            simpa only [Tx.line, String.append_assoc] using same
          obtain ⟨keys, values⟩ := first_field (c := '=') rfl plain.1 plain'.1 fields
          rw [keys, values]
      | remove key' =>
          have first := congrArg (fun s => s.toList.head?) same
          simp [Tx.line] at first
  | remove key =>
      cases u with
      | set key' value' =>
          have first := congrArg (fun s => s.toList.head?) same
          simp [Tx.line] at first
      | remove key' => rw [(String.append_right_inj "rm:").mp same]

theorem txLines_inj {txs txs' : List Tx} (plain : ∀ t ∈ txs, TxPlain t) (plain' : ∀ t ∈ txs', TxPlain t)
    (same : String.intercalate ";" (txs.map Tx.line) = String.intercalate ";" (txs'.map Tx.line)) :
    txs = txs' := by
  have free {us : List Tx} (all : ∀ t ∈ us, TxPlain t) : ∀ l ∈ us.map Tx.line, Free ';' l ∧ l ≠ "" := by
    intro l member
    obtain ⟨t, inside, rfl⟩ := List.mem_map.mp member
    exact txLine_free (all t inside)
  have lines := intercalate_inj (c := ';') rfl (free plain) (free plain') same
  clear same
  induction txs generalizing txs' with
  | nil => exact (List.map_eq_nil_iff.mp lines.symm).symm
  | cons t txs ih =>
      obtain ⟨u, us, rfl, here, rest⟩ := List.map_eq_cons_iff.mp lines.symm
      rw [txLine_inj (plain t (.head _)) (plain' u (.head _)) here.symm,
        ih (fun t member => plain t (.tail _ member)) (fun t member => plain' t (.tail _ member)) rest.symm]

/-- Blocks of plain transactions, with no bar in their hash fields, are never recuts. -/
theorem not_recut_of_plain {a b : Block} (plain : ∀ t ∈ a.txs, TxPlain t) (plain' : ∀ t ∈ b.txs, TxPlain t)
    (prev : Free '|' a.prevHash) (prev' : Free '|' b.prevHash) (root : Free '|' a.stateRoot)
    (root' : Free '|' b.stateRoot) : ¬ Recut a b := by
  intro recut
  have agree := agree_of_preimage prev' prev root' root recut.text
  have rest := recut.text
  unfold Block.preimage at rest
  rw [agree.height, agree.prev, agree.root] at rest
  have txs := (String.append_left_inj _).mp ((String.append_left_inj _).mp
    ((String.append_right_inj _).mp ((String.append_right_inj _).mp rest)))
  apply recut.other
  cases a
  cases b
  simp only [Block.mk.injEq]
  exact ⟨agree.height, agree.prev, txLines_inj plain' plain txs, agree.root⟩

/-- The value of its only entry ends like a second transaction. -/
def longValue : Block :=
  ⟨1, genesisPrev, [.set "a" "1;rm:b"], (StateStore.new.apply (.set "a" "1;rm:b")).stateRoot Sha256.hex⟩

/-- The same text as two transactions. -/
def twoTxs : Block := { longValue with txs := [.set "a" "1", .remove "b"] }

/-- The engine takes another block for a duplicate. -/
theorem applyBlock_misses_fork :
    (run Sha256.hex .new [longValue]).2 = [longValue] ∧
    (run Sha256.hex .new [longValue]).1.tipHeight = 1 ∧ twoTxs.height = 1 ∧
    ((run Sha256.hex .new [longValue]).1.applyBlock Sha256.hex twoTxs).2 = .error (.duplicate 1) ∧
    twoTxs ≠ longValue := by
  refine ⟨by decide +kernel, by decide +kernel, rfl, by decide +kernel, by decide +kernel⟩

theorem run_tellsFork_first :
    (∃ a ∈ (run Sha256.hex .new [firstBlock]).2, a.height = 1) ∧
    ∀ a ∈ (run Sha256.hex .new [firstBlock]).2, a.height = 1 →
      (TellsFork Sha256.hex (run Sha256.hex .new [firstBlock]).1 a { firstBlock with txs := [.remove "a"] } ↔
        ¬ Recut a { firstBlock with txs := [.remove "a"] }) := by
  have accepted : (run Sha256.hex .new [firstBlock]).2 = [firstBlock] := by
    decide +kernel
  have distinct : (([{ firstBlock with txs := [.remove "a"] }, firstBlock].map Block.preimage).map
      Sha256.hex).Nodup := by
    decide +kernel
  refine run_tellsFork_iff (b := { firstBlock with txs := [.remove "a"] }) ?_ (Nat.le_refl 1) (by decide +kernel)
  rw [accepted]
  refine Sha256.hex_injOn distinct ?_
  rintro _ ⟨a, member, rfl⟩
  exact List.mem_map_of_mem member

end SyncEngine
end KaiOs
