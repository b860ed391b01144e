import KaiOs.Lib.Sha256
import KaiOs.State.Sync

/-! Two engines with one tip hash hold the same chain. The fields of a block's preimage
are unambiguous because of what `apply_block` has checked. -/
namespace KaiOs
open Fields
namespace SyncEngine

variable {shaHex : String → String}

/-- What the preimage says about two accepted blocks. The transactions are left open:
their lines are not separated unambiguously. -/
structure Agree (b b' : Block) : Prop where
  height : b.height = b'.height
  prev : b.prevHash = b'.prevHash
  root : b.stateRoot = b'.stateRoot
  preimage : b.preimage = b'.preimage

section Fields
variable {start : StateStore} {e : SyncEngine} {accepted : List Block}
  (h : Chain shaHex start e accepted) (hex : ∀ t, Free '|' (shaHex t))
include h hex

theorem Chain.prev_free {b : Block} (member : b ∈ accepted) : Free '|' b.prevHash := by
  obtain ⟨i, at_i⟩ := List.mem_iff_getElem?.mp member
  rw [h.linked.prev_getElem _ _ at_i]
  rcases List.eq_nil_or_concat' (accepted.take i) with none_before | ⟨before, last, some_before⟩
  · rw [none_before, HashChain.tip_nil]
    decide
  · rw [some_before, HashChain.tip_concat]
    exact hex _

theorem Chain.root_free {b : Block} (member : b ∈ accepted) : Free '|' b.stateRoot := by
  obtain ⟨s, same⟩ := h.roots b member
  rw [same]
  exact merkleRoot_free shaHex hex s.entries

end Fields

theorem agree_of_preimage {b b' : Block} (prev : Free '|' b.prevHash) (prev' : Free '|' b'.prevHash)
    (root : Free '|' b.stateRoot) (root' : Free '|' b'.stateRoot)
    (same : b.preimage = b'.preimage) : Agree b b' := by
  have bar : "|".toList = ['|'] := rfl
  obtain ⟨height, rest⟩ := first_field bar (free_decimal rfl _) (free_decimal rfl _) same
  obtain ⟨link, rest⟩ := first_field bar prev prev' rest
  exact ⟨decimal_inj height, link, (last_field bar root root' rest).2, same⟩

theorem map_eq_of_agree {blocks blocks' : List Block} {α : Type} {f : Block → α}
    (agree : List.Forall₂ Agree blocks blocks') (field : ∀ b b', Agree b b' → f b = f b') :
    blocks.map f = blocks'.map f := by
  induction agree with
  | nil => rfl
  | cons here _ ih => rw [List.map_cons, List.map_cons, field _ _ here, ih]

theorem Chain.root_last {start : StateStore} {e : SyncEngine} {accepted : List Block}
    (h : Chain shaHex start e accepted) (grown : accepted ≠ []) :
    (accepted.map Block.stateRoot).getLast? = some (e.stateRoot shaHex) := by
  have last := List.getLast?_eq_some_getLast grown
  rw [List.getLast?_map, last, Option.map_some, h.lastRoot _ last]

section Two
variable {start₁ start₂ : StateStore} {blocks₁ blocks₂ : List Block}
  (inj : Set.InjOn shaHex {t | ∃ b ∈ (run shaHex start₁ blocks₁).2 ++ (run shaHex start₂ blocks₂).2,
    t = b.preimage})
  (hex : ∀ t, Free '|' (shaHex t))
  (fresh : ∀ b ∈ (run shaHex start₁ blocks₁).2 ++ (run shaHex start₂ blocks₂).2,
    b.blockHash shaHex ≠ genesisPrev)
  (same : (run shaHex start₁ blocks₁).1.tipBlockHash = (run shaHex start₂ blocks₂).1.tipBlockHash)
include inj hex fresh same

theorem accepted_agree :
    List.Forall₂ Agree (run shaHex start₁ blocks₁).2 (run shaHex start₂ blocks₂).2 := by
  have h₁ := run_chain shaHex start₁ blocks₁
  have h₂ := run_chain shaHex start₂ blocks₂
  rw [h₁.tipHash, h₂.tipHash] at same
  have free : ∀ b ∈ (run shaHex start₁ blocks₁).2 ++ (run shaHex start₂ blocks₂).2,
      Free '|' b.prevHash ∧ Free '|' b.stateRoot := by
    intro b member
    rcases List.mem_append.mp member with here | here
    · exact ⟨h₁.prev_free hex here, h₁.root_free hex here⟩
    · exact ⟨h₂.prev_free hex here, h₂.root_free hex here⟩
  refine HashChain.Linked.forall₂_of_tip Block.prevHash (Block.blockHash shaHex)
    (S := {b | b ∈ (run shaHex start₁ blocks₁).2 ++ (run shaHex start₂ blocks₂).2}) ?_ ?_ fresh
    h₁.linked h₂.linked ?_ ?_ same
  · intro b member b' member' hash
    exact agree_of_preimage (free b member).1 (free b' member').1 (free b member).2
      (free b' member').2 (inj ⟨b, member, rfl⟩ ⟨b', member', rfl⟩ hash)
  · intro b b' agree
    exact agree.prev
  · intro b member
    exact List.mem_append_left _ member
  · intro b member
    exact List.mem_append_right _ member

/-- Engines that have accepted something and show one tip agree on heights, hashes and
state root. -/
theorem agree_of_tip (grown₁ : (run shaHex start₁ blocks₁).2 ≠ [])
    (grown₂ : (run shaHex start₂ blocks₂).2 ≠ []) :
    (run shaHex start₁ blocks₁).1.tipHeight = (run shaHex start₂ blocks₂).1.tipHeight ∧
    (∀ height, (run shaHex start₁ blocks₁).1.blockHashAt height =
      (run shaHex start₂ blocks₂).1.blockHashAt height) ∧
    (run shaHex start₁ blocks₁).1.stateRoot shaHex =
      (run shaHex start₂ blocks₂).1.stateRoot shaHex := by
  have agree := accepted_agree inj hex fresh same
  have h₁ := run_chain shaHex start₁ blocks₁
  have h₂ := run_chain shaHex start₂ blocks₂
  refine ⟨?_, ?_, ?_⟩
  · rw [h₁.tipHeight, h₂.tipHeight, agree.length_eq]
  · intro height
    cases height with
    | zero => rw [blockHashAt, blockHashAt, h₁.unborn, h₂.unborn]
    | succ i =>
        have hashes := map_eq_of_agree (f := Block.blockHash shaHex) agree
          fun b b' both => congrArg shaHex both.preimage
        rw [blockHashAt, blockHashAt, h₁.applied, h₂.applied, ← List.getElem?_map,
          ← List.getElem?_map, hashes]
  · have roots := map_eq_of_agree agree fun b b' both => both.root
    have last := h₁.root_last grown₁
    rw [roots, h₂.root_last grown₂] at last
    exact (Option.some.inj last).symm

end Two

/-- A first block that sets one entry. -/
def firstBlock : Block :=
  ⟨1, genesisPrev, [.set "a" "1"], (StateStore.new.apply (.set "a" "1")).stateRoot Sha256.hex⟩

/-- One engine sees the block twice, the other one starts elsewhere and first sees a gap. -/
theorem agree_of_tip_first :
    (run Sha256.hex .new [firstBlock, firstBlock]).1.tipHeight =
      (run Sha256.hex (StateStore.new.apply (.set "a" "0"))
        [{ firstBlock with height := 7 }, firstBlock]).1.tipHeight ∧
    (∀ height, (run Sha256.hex .new [firstBlock, firstBlock]).1.blockHashAt height =
      (run Sha256.hex (StateStore.new.apply (.set "a" "0"))
        [{ firstBlock with height := 7 }, firstBlock]).1.blockHashAt height) ∧
    (run Sha256.hex .new [firstBlock, firstBlock]).1.stateRoot Sha256.hex =
      (run Sha256.hex (StateStore.new.apply (.set "a" "0"))
        [{ firstBlock with height := 7 }, firstBlock]).1.stateRoot Sha256.hex := by
  have accepted₁ : (run Sha256.hex .new [firstBlock, firstBlock]).2 = [firstBlock] := by
    decide +kernel
  have accepted₂ : (run Sha256.hex (StateStore.new.apply (.set "a" "0"))
      [{ firstBlock with height := 7 }, firstBlock]).2 = [firstBlock] := by
    decide +kernel
  have only : ∀ b ∈ [firstBlock] ++ [firstBlock], b = firstBlock := by
    intro b member
    simpa using member
  refine agree_of_tip ?_ (Sha256.free_hex (by decide)) ?_ (by decide +kernel) ?_ ?_
  · rw [accepted₁, accepted₂]
    rintro _ ⟨b, member, rfl⟩ _ ⟨b', member', rfl⟩ _
    rw [only b member, only b' member']
  · rw [accepted₁, accepted₂]
    intro b member
    rw [only b member]
    decide +kernel
  · rw [accepted₁]
    exact List.cons_ne_nil _ _
  · rw [accepted₂]
    exact List.cons_ne_nil _ _

end SyncEngine
end KaiOs
