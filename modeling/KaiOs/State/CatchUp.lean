import KaiOs.Lib.Awaited
import KaiOs.State.SyncAgreement

/-! A replica that is sent the blocks of another engine in any order, more than once, with gaps and together with
blocks that fit nowhere in the chain. -/
namespace KaiOs
open Awaited
namespace SyncEngine

section
variable (shaHex : String → String)

/-- The engine behind a chain of accepted blocks. -/
def replay (start : StateStore) (chain : List Block) : SyncEngine := chain.foldl (commit shaHex) (new start)

/-- Each block of the chain is acceptable behind the ones before it. -/
def Replayable (start : StateStore) (chain : List Block) : Prop :=
  ∀ front b, front ++ [b] <+: chain → (replay shaHex start front).Accepts shaHex b

/-- The block is acceptable nowhere in the chain. -/
def Foreign (start : StateStore) (chain : List Block) (b : Block) : Prop :=
  ∀ front, front <+: chain → ¬ (replay shaHex start front).Accepts shaHex b

/-- What the engine answers to a block of its own chain. -/
def answer (e : SyncEngine) (b : Block) : Except SyncError String :=
  if b.height ≤ e.tipHeight then .error (.duplicate b.height)
  else if b.height = e.tipHeight + 1 then .ok (b.blockHash shaHex)
  else .error (.heightGap (e.tipHeight + 1) b.height)

theorem replay_concat (start : StateStore) (chain : List Block) (b : Block) :
    replay shaHex start (chain ++ [b]) = (replay shaHex start chain).commit shaHex b := List.foldl_concat ..

end

variable {shaHex : String → String} {start : StateStore} {e : SyncEngine} {chain accepted : List Block} {b : Block}

theorem applyBlock_accepts (ok : e.Accepts shaHex b) :
    e.applyBlock shaHex b = (e.commit shaHex b, .ok (b.blockHash shaHex)) := by
  obtain ⟨-, done⟩ | ⟨err, refused⟩ := applyBlock_cases shaHex e b
  · exact done
  · rw [applyBlock, ok.unknown] at refused
    simp only [ok.height, ok.prev, ok.root, ne_eq, not_true_eq_false, if_false] at refused
    cases (Prod.mk.inj refused).2

theorem applyBlock_refuses (not_ok : ¬ e.Accepts shaHex b) : ∃ err, e.applyBlock shaHex b = (e, .error err) := by
  obtain ⟨ok, -⟩ | refused := applyBlock_cases shaHex e b
  · exact absurd ok not_ok
  · exact refused

theorem replayable_applyBlocks (blocks : List Block) (valid : Replayable shaHex start accepted)
    (here : e = replay shaHex start accepted) :
    (e.applyBlocks shaHex accepted blocks).1 = replay shaHex start (e.applyBlocks shaHex accepted blocks).2 ∧
      Replayable shaHex start (e.applyBlocks shaHex accepted blocks).2 := by
  induction blocks generalizing e accepted with
  | nil => exact ⟨here, valid⟩
  | cons b blocks ih =>
      obtain ⟨ok, done⟩ | ⟨err, refused⟩ := applyBlock_cases shaHex e b
      · simp only [applyBlocks, done]
        refine ih (fun front b' begun => ?_) (by rw [replay_concat, here])
        obtain same | before := List.prefix_concat_iff.mp begun
        · obtain ⟨rfl, rfl⟩ := List.append_singleton_inj.mp same
          exact here ▸ ok
        · exact valid front b' before
      · simp only [applyBlocks, refused]
        exact ih valid here

theorem run_replay (shaHex : String → String) (start : StateStore) (blocks : List Block) :
    (run shaHex start blocks).1 = replay shaHex start (run shaHex start blocks).2 ∧
      Replayable shaHex start (run shaHex start blocks).2 := by
  refine replayable_applyBlocks blocks (fun front b begun => ?_) rfl
  exact absurd (List.prefix_nil.mp begun) (by simp)

section
variable (valid : Replayable shaHex start chain)
include valid

theorem Replayable.earlier {front : List Block} (begun : front <+: chain) : Replayable shaHex start front :=
  fun before b part => valid before b (part.trans begun)

theorem Replayable.consistent : Chain shaHex start (replay shaHex start chain) chain := by
  induction chain using List.reverseRecOn with
  | nil => exact .new start
  | append_singleton chain b ih =>
      rw [replay_concat]
      exact (ih (valid.earlier (List.prefix_append chain [b]))).commit (valid chain b List.prefix_rfl)

/-- The blocks of a chain are told apart by their heights. -/
theorem Replayable.next {front : List Block} (begun : front <+: chain) (member : b ∈ chain)
    (ok : (replay shaHex start front).Accepts shaHex b) : front ++ [b] <+: chain := by
  obtain ⟨i, at_i⟩ := List.mem_iff_getElem?.mp member
  have height := ok.height
  rw [(valid.earlier begun).consistent.tipHeight, valid.consistent.heights i b at_i, Nat.succ_inj] at height
  obtain ⟨rest, rfl⟩ := begun
  rw [height, List.getElem?_append_right (Nat.le_refl _), Nat.sub_self, ← List.head?_eq_getElem?,
    List.head?_eq_some_iff] at at_i
  obtain ⟨behind, rfl⟩ := at_i
  exact ⟨behind, by rw [List.append_assoc]; rfl⟩

end

/-- Chain blocks and foreign ones take the engine along the chain, one block at a time. -/
theorem applyBlocks_caught {front rest delivered : List Block} (valid : Replayable shaHex start (front ++ rest))
    (known : ∀ b ∈ delivered, b ∈ front ++ rest ∨ Foreign shaHex start (front ++ rest) b) :
    (replay shaHex start front).applyBlocks shaHex front delivered =
      (replay shaHex start (front ++ rest.take (caught rest delivered)),
        front ++ rest.take (caught rest delivered)) := by
  induction delivered generalizing front rest with
  | nil => rw [applyBlocks, caught, List.take_zero, List.append_nil]
  | cons b delivered ih =>
      obtain ⟨here, known⟩ := List.forall_mem_cons.mp known
      have begun : front <+: front ++ rest := List.prefix_append front rest
      by_cases ok : (replay shaHex start front).Accepts shaHex b
      · have member : b ∈ front ++ rest := here.resolve_right fun foreign => foreign front begun ok
        obtain ⟨behind, same⟩ := valid.next begun member ok
        rw [List.append_assoc, List.append_cancel_left_eq] at same
        subst same
        have split : front ++ ([b] ++ behind) = (front ++ [b]) ++ behind := (List.append_assoc ..).symm
        rw [split] at valid known
        rw [applyBlocks, applyBlock_accepts ok]
        dsimp only
        rw [← replay_concat, ih valid known, List.singleton_append, caught, if_pos rfl, List.take_succ_cons,
          List.append_assoc, List.singleton_append]
      · obtain ⟨err, refused⟩ := applyBlock_refuses ok
        rw [applyBlocks, refused]
        dsimp only
        rw [ih valid known]
        cases rest with
        | nil => rw [List.take_nil, List.take_nil]
        | cons next rest =>
            rw [caught, if_neg]
            rintro rfl
            exact ok (valid front b ⟨rest, by rw [List.append_assoc]; rfl⟩)

/-- To its own chain an engine reports gaps and repetitions, and no forks or mismatches. -/
theorem Replayable.answers {front rest : List Block} (valid : Replayable shaHex start (front ++ rest))
    (member : b ∈ front ++ rest) :
    ((replay shaHex start front).applyBlock shaHex b).2 = answer shaHex (replay shaHex start front) b := by
  have here := (valid.earlier (List.prefix_append front rest)).consistent
  obtain ⟨i, at_i⟩ := List.mem_iff_getElem?.mp member
  have height := valid.consistent.heights i b at_i
  have held := here.applied i
  rw [answer, here.tipHeight, height]
  obtain before | rfl | behind := Nat.lt_trichotomy i front.length
  · rw [List.getElem?_append_left before] at at_i
    rw [at_i, Option.map_some, ← height] at held
    rw [if_pos (Nat.succ_le_of_lt before), ← height, applyBlock, held]
    simp
  · obtain ⟨behind, rfl⟩ : ∃ behind, rest = b :: behind := by
      rwa [List.getElem?_append_right (Nat.le_refl _), Nat.sub_self, ← List.head?_eq_getElem?,
        List.head?_eq_some_iff] at at_i
    rw [if_neg (Nat.not_succ_le_self _), if_pos rfl, applyBlock_accepts (valid front b ⟨behind, by simp⟩)]
  · rw [List.getElem?_eq_none (Nat.le_of_lt behind), Option.map_none, ← height] at held
    have above : ¬ i + 1 ≤ front.length := by omega
    have apart : i + 1 ≠ front.length + 1 := by omega
    rw [if_neg above, if_neg apart, applyBlock, held]
    simp only [here.tipHeight, height, apart, ne_eq, not_false_eq_true, if_true]

/-- A replica is where the blocks that came in turn have brought it, whatever came with them. -/
theorem replica_catches_up {produced delivered : List Block} {source : SyncEngine}
    (built : run shaHex start produced = (source, chain))
    (known : ∀ b ∈ delivered, b ∈ chain ∨ Foreign shaHex start chain b) :
    (∃ n ≤ chain.length, run shaHex start delivered = run shaHex start (chain.take n) ∧
      (run shaHex start delivered).2 = chain.take n ∧
      ∀ m ≤ chain.length, (chain.take m).Sublist delivered ↔ m ≤ n) ∧
    ((run shaHex start delivered).1 = source ↔ chain.Sublist delivered) ∧
    ∀ front b, front ++ [b] <+: delivered → b ∈ chain →
      ((run shaHex start front).1.applyBlock shaHex b).2 = answer shaHex (run shaHex start front).1 b := by
  obtain ⟨rfl, valid⟩ : source = replay shaHex start chain ∧ Replayable shaHex start chain := by
    have whole := run_replay shaHex start produced
    rwa [built] at whole
  have reached (part : List Block) (known : ∀ b ∈ part, b ∈ chain ∨ Foreign shaHex start chain b) :
      run shaHex start part =
        (replay shaHex start (chain.take (caught chain part)), chain.take (caught chain part)) :=
    @applyBlocks_caught _ _ [] chain part valid known
  have within := caught_le chain delivered
  have earlier {n : ℕ} : Replayable shaHex start (chain.take n) := valid.earlier (List.take_prefix n chain)
  refine ⟨⟨caught chain delivered, within, ?_, ?_, fun m short => take_sublist_iff short⟩, ?_,
    fun front b begun member => ?_⟩
  · rw [reached delivered known, reached (chain.take _) fun b member => .inl (List.mem_of_mem_take member),
      caught_take within]
  · rw [reached delivered known]
  · rw [reached delivered known, sublist_iff]
    constructor
    · intro same
      have tips := congrArg SyncEngine.tipHeight same
      rw [earlier.consistent.tipHeight, valid.consistent.tipHeight, List.length_take,
        Nat.min_eq_left within] at tips
      exact tips
    · intro all
      rw [all, List.take_length]
  · have before := reached front fun b' inside => known b' (begun.subset (List.mem_append_left _ inside))
    rw [before]
    have split := (List.take_append_drop (caught chain front) chain).symm
    rw [split] at valid member
    exact valid.answers member

/-- Behind the first block one that sets another entry. -/
def secondBlock : Block :=
  ⟨2, firstBlock.blockHash Sha256.hex, [.set "b" "2"],
    ((StateStore.new.apply (.set "a" "1")).apply (.set "b" "2")).stateRoot Sha256.hex⟩

/-- The first block with a root that no state has. -/
def spoiledBlock : Block := { firstBlock with stateRoot := "|" }

theorem spoiledBlock_foreign (start : StateStore) (chain : List Block) :
    Foreign Sha256.hex start chain spoiledBlock := by
  intro front _ ok
  have free := merkleRoot_free Sha256.hex (Sha256.free_hex (by decide))
    ((replay Sha256.hex start front).state.applyAll spoiledBlock.txs).entries
  have root : merkleRoot Sha256.hex _ = "|" := ok.root
  rw [root] at free
  exact absurd free (by decide)

theorem replica_catches_up_second :
    (∃ n ≤ [firstBlock, secondBlock].length,
      run Sha256.hex .new [secondBlock, spoiledBlock, firstBlock, firstBlock, secondBlock] =
        run Sha256.hex .new ([firstBlock, secondBlock].take n) ∧
      (run Sha256.hex .new [secondBlock, spoiledBlock, firstBlock, firstBlock, secondBlock]).2 =
        [firstBlock, secondBlock].take n ∧
      ∀ m ≤ [firstBlock, secondBlock].length,
        ([firstBlock, secondBlock].take m).Sublist [secondBlock, spoiledBlock, firstBlock, firstBlock, secondBlock] ↔
          m ≤ n) ∧
    ((run Sha256.hex .new [secondBlock, spoiledBlock, firstBlock, firstBlock, secondBlock]).1 =
        (run Sha256.hex .new [firstBlock, secondBlock]).1 ↔
      [firstBlock, secondBlock].Sublist [secondBlock, spoiledBlock, firstBlock, firstBlock, secondBlock]) ∧
    ∀ front b, front ++ [b] <+: [secondBlock, spoiledBlock, firstBlock, firstBlock, secondBlock] →
      b ∈ [firstBlock, secondBlock] →
      ((run Sha256.hex .new front).1.applyBlock Sha256.hex b).2 =
        answer Sha256.hex (run Sha256.hex .new front).1 b := by
  have chain : (run Sha256.hex .new [firstBlock, secondBlock]).2 = [firstBlock, secondBlock] := by decide +kernel
  refine replica_catches_up (Prod.ext rfl chain) fun b member => ?_
  simp only [List.mem_cons, List.not_mem_nil, or_false] at member
  obtain rfl | rfl | rfl | rfl | rfl := member
  · exact .inl (by simp)
  · exact .inr (spoiledBlock_foreign _ _)
  · exact .inl (by simp)
  · exact .inl (by simp)
  · exact .inl (by simp)

end SyncEngine
end KaiOs
