import KaiOs.Lib.HashChain
import KaiOs.State.Store
import KaiOs.State.Wal
import Mathlib.Algebra.Group.Nat.Defs

/-! `state/src/sync.rs`: the engine that applies verified blocks. Heights are natural
numbers; `run_fits` bounds them below the range of `u64`. -/
namespace KaiOs

structure Block where
  height : ℕ
  prevHash : String
  txs : List Tx
  stateRoot : String
  deriving DecidableEq

def Tx.line : Tx → String
  | .set key value => "set:" ++ key ++ "=" ++ value
  | .remove key => "rm:" ++ key

inductive SyncError where
  | heightGap (expected got : ℕ)
  | duplicate (height : ℕ)
  | fork (height : ℕ) (known got : String)
  | prevMismatch (expected got : String)
  | rootMismatch (claimed computed : String)
  | snapshotHeightMismatch (expected got : UInt64)
  | snapshotRootMismatch (claimed computed : String)
  deriving DecidableEq

structure SyncEngine where
  tipHeight : ℕ
  tipBlockHash : String
  /-- Height to block hash, for the fork detection. -/
  applied : BTreeMap ℕ String
  state : StateStore

section
variable (shaHex : String → String)

def Block.preimage (b : Block) : String :=
  toString b.height ++ "|" ++ (b.prevHash ++ "|" ++
    (String.intercalate ";" (b.txs.map Tx.line) ++ "|" ++ b.stateRoot))

def Block.blockHash (b : Block) : String := shaHex b.preimage

namespace SyncEngine

def new (state : StateStore) : SyncEngine where
  tipHeight := 0
  tipBlockHash := genesisPrev
  applied := ∅
  state := state

def stateRoot (e : SyncEngine) : String := e.state.stateRoot shaHex

def blockHashAt (e : SyncEngine) (height : ℕ) : Option String := e.applied[height]?

def applyBlock (e : SyncEngine) (b : Block) : SyncEngine × Except SyncError String :=
  match e.applied[b.height]? with
  | some known =>
      if known ≠ b.blockHash shaHex then
        (e, .error (.fork b.height known (b.blockHash shaHex)))
      else (e, .error (.duplicate b.height))
  | none =>
      if b.height ≠ e.tipHeight + 1 then
        (e, .error (.heightGap (e.tipHeight + 1) b.height))
      else if b.prevHash ≠ e.tipBlockHash then
        (e, .error (.prevMismatch e.tipBlockHash b.prevHash))
      else
        let scratch := e.state.applyAll b.txs
        let computed := scratch.stateRoot shaHex
        if computed ≠ b.stateRoot then
          (e, .error (.rootMismatch b.stateRoot computed))
        else
          (⟨b.height, b.blockHash shaHex, e.applied.insert b.height (b.blockHash shaHex), scratch⟩,
            .ok (b.blockHash shaHex))

/-- A sequence of calls: the engine and the blocks it accepted. -/
def applyBlocks (e : SyncEngine) (accepted : List Block) : List Block → SyncEngine × List Block
  | [] => (e, accepted)
  | b :: blocks => match e.applyBlock shaHex b with
    | (e', .ok _) => applyBlocks e' (accepted ++ [b]) blocks
    | (e', .error _) => applyBlocks e' accepted blocks

/-- A new engine behind a sequence of calls. -/
def run (start : StateStore) (blocks : List Block) : SyncEngine × List Block :=
  applyBlocks shaHex (new start) [] blocks

/-- The conditions under which a block is taken. -/
structure Accepts (e : SyncEngine) (b : Block) : Prop where
  unknown : e.applied[b.height]? = none
  height : b.height = e.tipHeight + 1
  prev : b.prevHash = e.tipBlockHash
  root : (e.state.applyAll b.txs).stateRoot shaHex = b.stateRoot

/-- The engine behind an accepted block. -/
def commit (e : SyncEngine) (b : Block) : SyncEngine :=
  ⟨b.height, b.blockHash shaHex, e.applied.insert b.height (b.blockHash shaHex), e.state.applyAll b.txs⟩

end SyncEngine
end

namespace SyncEngine
variable {shaHex : String → String}

/-- A call commits an acceptable block or leaves the engine as it is. -/
theorem applyBlock_cases (shaHex : String → String) (e : SyncEngine) (b : Block) :
    (e.Accepts shaHex b ∧ e.applyBlock shaHex b = (e.commit shaHex b, .ok (b.blockHash shaHex))) ∨
      ∃ err, e.applyBlock shaHex b = (e, .error err) := by
  cases known : e.applied[b.height]? with
  | some hash =>
      simp only [applyBlock, known]
      split_ifs
      · exact .inr ⟨_, rfl⟩
      · exact .inr ⟨_, rfl⟩
  | none =>
      simp only [applyBlock, known]
      split_ifs with height prev root
      · exact .inr ⟨_, rfl⟩
      · exact .inr ⟨_, rfl⟩
      · exact .inr ⟨_, rfl⟩
      · exact .inl ⟨⟨known, not_not.mp height, not_not.mp prev, not_not.mp root⟩, rfl⟩

/-- How the engine and the list of accepted blocks belong together. -/
structure Chain (shaHex : String → String) (start : StateStore) (e : SyncEngine)
    (accepted : List Block) : Prop where
  tipHeight : e.tipHeight = accepted.length
  tipHash : e.tipBlockHash = HashChain.tip (Block.blockHash shaHex) genesisPrev accepted
  unborn : e.applied[0]? = none
  applied : ∀ i, e.applied[i + 1]? = accepted[i]?.map (Block.blockHash shaHex)
  heights : ∀ i b, accepted[i]? = some b → b.height = i + 1
  linked : HashChain.Linked Block.prevHash (Block.blockHash shaHex) genesisPrev accepted
  state : e.state = start.applyAll (accepted.flatMap Block.txs)
  roots : ∀ b ∈ accepted, ∃ s : StateStore, b.stateRoot = s.stateRoot shaHex
  lastRoot : ∀ b ∈ accepted.getLast?, e.stateRoot shaHex = b.stateRoot

theorem Chain.new (start : StateStore) : Chain shaHex start (.new start) [] where
  tipHeight := rfl
  tipHash := rfl
  unborn := by simp [SyncEngine.new]
  applied i := by simp [SyncEngine.new]
  heights i b at_i := by cases at_i
  linked := trivial
  state := rfl
  roots b member := nomatch member
  lastRoot b member := nomatch member

theorem Chain.commit {start : StateStore} {e : SyncEngine} {accepted : List Block} {b : Block}
    (h : Chain shaHex start e accepted) (ok : e.Accepts shaHex b) :
    Chain shaHex start (e.commit shaHex b) (accepted ++ [b]) where
  tipHeight := by rw [List.length_append, ← h.tipHeight]; exact ok.height
  tipHash := (HashChain.tip_concat (Block.blockHash shaHex) genesisPrev accepted b).symm
  unborn := by
    have other : b.height ≠ 0 := by rw [ok.height]; omega
    simp [SyncEngine.commit, Std.ExtTreeMap.getElem?_insert, other, h.unborn]
  applied i := by
    have height : b.height = accepted.length + 1 := by rw [ok.height, h.tipHeight]
    rcases Nat.lt_trichotomy i accepted.length with before | rfl | behind
    · have other : b.height ≠ i + 1 := by omega
      rw [List.getElem?_append_left before, ← h.applied]
      simp [SyncEngine.commit, Std.ExtTreeMap.getElem?_insert, other]
    · simp [SyncEngine.commit, height]
    · have other : b.height ≠ i + 1 := by omega
      rw [List.getElem?_eq_none (by rw [List.length_append, List.length_singleton]; omega)]
      have old := h.applied i
      rw [List.getElem?_eq_none (Nat.le_of_lt behind)] at old
      simpa [SyncEngine.commit, Std.ExtTreeMap.getElem?_insert, other] using old
  heights i b' at_i := by
    rcases Nat.lt_or_ge i accepted.length with before | behind
    · rw [List.getElem?_append_left before] at at_i
      exact h.heights i b' at_i
    · rw [List.getElem?_append_right behind, List.getElem?_singleton] at at_i
      split_ifs at at_i with last
      cases at_i
      rw [ok.height, h.tipHeight]
      omega
  linked := by
    rw [HashChain.linked_concat, ← h.tipHash]
    exact ⟨h.linked, ok.prev⟩
  state := by
    rw [List.flatMap_append, StateStore.applyAll_append, ← h.state, List.flatMap_singleton]
    rfl
  roots b' member := by
    rcases List.mem_append.mp member with old | new
    · exact h.roots b' old
    · rw [List.mem_singleton.mp new]
      exact ⟨_, ok.root.symm⟩
  lastRoot b' member := by
    rw [List.getLast?_concat] at member
    cases member
    exact ok.root

theorem Chain.applyBlocks {start : StateStore} {e : SyncEngine} {accepted : List Block}
    (h : Chain shaHex start e accepted) (blocks : List Block) :
    Chain shaHex start (e.applyBlocks shaHex accepted blocks).1
      (e.applyBlocks shaHex accepted blocks).2 := by
  induction blocks generalizing e accepted with
  | nil => exact h
  | cons b blocks ih =>
      rcases applyBlock_cases shaHex e b with ⟨ok, done⟩ | ⟨err, refused⟩
      · simp only [SyncEngine.applyBlocks, done]
        exact ih (h.commit ok)
      · simp only [SyncEngine.applyBlocks, refused]
        exact ih h

theorem run_chain (shaHex : String → String) (start : StateStore) (blocks : List Block) :
    Chain shaHex start (run shaHex start blocks).1 (run shaHex start blocks).2 :=
  (Chain.new start).applyBlocks blocks

section Facts
variable {start : StateStore} {e : SyncEngine} {accepted : List Block}
  (h : Chain shaHex start e accepted)
include h

theorem Chain.recorded (height : ℕ) :
    (e.blockHashAt height).isSome ↔ 1 ≤ height ∧ height ≤ e.tipHeight := by
  cases height with
  | zero => simp [blockHashAt, h.unborn]
  | succ i =>
      have place : (e.blockHashAt (i + 1)).isSome ↔ i < accepted.length := by
        simp [blockHashAt, h.applied]
      rw [place, h.tipHeight]
      omega

theorem Chain.block_hash {b : Block} (member : b ∈ accepted) :
    e.blockHashAt b.height = some (b.blockHash shaHex) := by
  obtain ⟨i, at_i⟩ := List.mem_iff_getElem?.mp member
  rw [h.heights i b at_i, blockHashAt, h.applied, at_i, Option.map_some]

theorem Chain.tip_recorded (grown : 1 ≤ e.tipHeight) :
    e.blockHashAt e.tipHeight = some e.tipBlockHash := by
  rcases List.eq_nil_or_concat' accepted with rfl | ⟨before, last, rfl⟩
  · rw [h.tipHeight] at grown
    cases grown
  · rw [h.tipHeight, h.tipHash, HashChain.tip_concat, List.length_append, List.length_singleton,
      blockHashAt, h.applied, List.getElem?_concat_length, Option.map_some]

theorem Chain.prev_recorded {b : Block} (member : b ∈ accepted) (above : 2 ≤ b.height) :
    e.blockHashAt (b.height - 1) = some b.prevHash := by
  obtain ⟨i, at_i⟩ := List.mem_iff_getElem?.mp member
  have height := h.heights i b at_i
  obtain ⟨j, rfl⟩ : ∃ j, i = j + 1 := ⟨i - 1, by omega⟩
  obtain ⟨inside, _⟩ := List.getElem?_eq_some_iff.mp at_i
  have before : j < accepted.length := by omega
  have link := h.linked.prev_getElem _ _ at_i
  rw [List.take_add_one, List.getElem?_eq_getElem before, Option.toList_some,
    HashChain.tip_concat] at link
  rw [height, Nat.add_sub_cancel, blockHashAt, h.applied, List.getElem?_eq_getElem before,
    Option.map_some, link]

theorem Chain.height_range : accepted.map Block.height = List.range' 1 e.tipHeight := by
  apply List.ext_getElem?
  intro i
  rw [List.getElem?_map, h.tipHeight]
  cases at_i : accepted[i]? with
  | none =>
      have outside := List.getElem?_eq_none_iff.mp at_i
      rw [List.getElem?_eq_none (by rw [List.length_range']; exact outside), Option.map_none]
  | some b =>
      obtain ⟨inside, _⟩ := List.getElem?_eq_some_iff.mp at_i
      rw [Option.map_some, h.heights i b at_i, List.getElem?_range' inside]
      congr 1
      omega

/-- With fewer than `2 ^ 64 - 1` accepted blocks no height, nor the next one, is out of the range of `u64`. -/
theorem Chain.fits (few : accepted.length + 1 < 2 ^ 64) :
    e.tipHeight + 1 < 2 ^ 64 ∧ (∀ height, (e.blockHashAt height).isSome → height < 2 ^ 64) ∧
      ∀ b ∈ accepted, b.height < 2 ^ 64 := by
  have tip : e.tipHeight + 1 < 2 ^ 64 := by rw [h.tipHeight]; exact few
  have known (height : ℕ) (found : (e.blockHashAt height).isSome) : height < 2 ^ 64 := by
    have below := ((h.recorded height).mp found).2
    omega
  refine ⟨tip, known, fun b member => known b.height ?_⟩
  rw [h.block_hash member]
  rfl

end Facts

theorem applyBlocks_length (shaHex : String → String) (e : SyncEngine) (accepted blocks : List Block) :
    (e.applyBlocks shaHex accepted blocks).2.length ≤ accepted.length + blocks.length := by
  induction blocks generalizing e accepted with
  | nil => exact Nat.le_refl _
  | cons b blocks ih =>
      rw [List.length_cons]
      obtain ⟨-, done⟩ | ⟨err, refused⟩ := applyBlock_cases shaHex e b
      · have rest := ih (e.commit shaHex b) (accepted ++ [b])
        rw [List.length_append, List.length_singleton] at rest
        simp only [SyncEngine.applyBlocks, done]
        omega
      · have rest := ih e accepted
        simp only [SyncEngine.applyBlocks, refused]
        omega

/-- No sequence of fewer than `2 ^ 64 - 1` calls brings a new engine near the end of `u64`. -/
theorem run_fits (shaHex : String → String) (start : StateStore) {blocks : List Block}
    (few : blocks.length + 1 < 2 ^ 64) :
    (run shaHex start blocks).1.tipHeight + 1 < 2 ^ 64 ∧
      (∀ height, ((run shaHex start blocks).1.blockHashAt height).isSome → height < 2 ^ 64) ∧
      ∀ b ∈ (run shaHex start blocks).2, b.height < 2 ^ 64 := by
  have taken := applyBlocks_length shaHex (new start) [] blocks
  rw [List.length_nil, Nat.zero_add] at taken
  exact (run_chain shaHex start blocks).fits (Nat.lt_of_le_of_lt (Nat.succ_le_succ taken) few)

/-- After any calls the engine is consistent, and the next call that is refused changes
nothing. -/
theorem run_consistent (shaHex : String → String) (start : StateStore) (blocks : List Block) :
    (∀ height, ((run shaHex start blocks).1.blockHashAt height).isSome ↔
      1 ≤ height ∧ height ≤ (run shaHex start blocks).1.tipHeight) ∧
    (1 ≤ (run shaHex start blocks).1.tipHeight →
      (run shaHex start blocks).1.blockHashAt (run shaHex start blocks).1.tipHeight =
        some (run shaHex start blocks).1.tipBlockHash) ∧
    (run shaHex start blocks).2.map Block.height =
      List.range' 1 (run shaHex start blocks).1.tipHeight ∧
    (∀ b ∈ (run shaHex start blocks).2,
      (run shaHex start blocks).1.blockHashAt b.height = some (b.blockHash shaHex) ∧
      (2 ≤ b.height →
        (run shaHex start blocks).1.blockHashAt (b.height - 1) = some b.prevHash)) ∧
    (run shaHex start blocks).1.state =
      start.applyAll ((run shaHex start blocks).2.flatMap Block.txs) ∧
    (∀ b ∈ (run shaHex start blocks).2.getLast?,
      (run shaHex start blocks).1.stateRoot shaHex = b.stateRoot) ∧
    (∀ b err, ((run shaHex start blocks).1.applyBlock shaHex b).2 = .error err →
      ((run shaHex start blocks).1.applyBlock shaHex b).1 = (run shaHex start blocks).1) := by
  have h := run_chain shaHex start blocks
  refine ⟨h.recorded, h.tip_recorded, h.height_range, ?_, h.state, h.lastRoot, ?_⟩
  · intro b member
    exact ⟨h.block_hash member, h.prev_recorded member⟩
  · intro b err refused
    rcases applyBlock_cases shaHex (run shaHex start blocks).1 b with ⟨_, done⟩ | ⟨_, kept⟩
    · rw [done] at refused
      cases refused
    · rw [kept]

end SyncEngine
end KaiOs
