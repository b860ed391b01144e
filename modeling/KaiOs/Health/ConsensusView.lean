import KaiOs.Health.Convergence

/-! The view of a node as a maximum: of all entries that any observer holds for it the latest, among
these the severest, whoever holds it. -/
namespace KaiOs.Health
open List Latest

theorem heard_about {selfId : String} {calls : List GossipCall} {observer nodeId : String} {e : NodeHealth}
    (member : e ∈ heard selfId calls observer nodeId) : e.nodeId = nodeId := by
  induction calls using List.reverseRecOn with
  | nil => cases member
  | append_singleton calls c ih =>
      rw [heard, List.foldl_concat, ← heard] at member
      cases c with
      | observe node status tick =>
          rw [hear] at member
          split at member
          · next own =>
              rw [List.mem_singleton.mp member]
              exact own.2
          · exact ih member
      | merge sender remote =>
          rw [hear] at member
          split at member
          · obtain before | now := List.mem_append.mp member
            · exact ih before
            · exact of_decide_eq_true (List.mem_filter.mp now).2
          · exact ih member

theorem slot_about {selfId : String} {calls : List GossipCall} {observer nodeId : String} {e : NodeHealth}
    (held : (HealthGossip.after selfId calls).slot observer nodeId = some e) : e.nodeId = nodeId := by
  rw [slot_after] at held
  exact heard_about (argmax_mem held)

section
variable {g : HealthGossip} {nodeId : String}

theorem consensusView_none : g.consensusView nodeId = none ↔ ∀ observer, g.slot observer nodeId = none := by
  rw [consensusView_eq, argmax_eq_none, List.eq_nil_iff_forall_not_mem]
  simp only [mem_slots, not_exists, Option.eq_none_iff_forall_ne_some]
  exact forall_comm

theorem consensusView_top {e : NodeHealth} (view : g.consensusView nodeId = some e) :
    (∃ observer, g.slot observer nodeId = some e) ∧
      ∀ observer other, g.slot observer nodeId = some other → other.rank ≤ e.rank := by
  rw [consensusView_eq] at view
  refine ⟨mem_slots.mp (argmax_mem view), fun observer other held => ?_⟩
  exact le_of_mem_argmax (mem_slots.mpr ⟨observer, held⟩) view

theorem consensusView_of_slot {observer : String} {e : NodeHealth} (held : g.slot observer nodeId = some e) :
    ∃ top, g.consensusView nodeId = some top ∧ e.rank ≤ top.rank := by
  cases view : g.consensusView nodeId with
  | none =>
      rw [consensusView_none.mp view observer] at held
      cases held
  | some top => exact ⟨top, rfl, (consensusView_top view).2 observer e held⟩

theorem tick_le_of_rank {e top : NodeHealth} (below : e.rank ≤ top.rank) : e.tick ≤ top.tick := by
  rw [NodeHealth.rank, NodeHealth.rank, Prod.Lex.toLex_le_toLex] at below
  rw [UInt64.le_iff_toNat_le]
  rcases below with earlier | ⟨tie, -⟩
  · exact Nat.le_of_lt earlier
  · exact Nat.le_of_eq tie

theorem slot_merge_le (sender : String) (remote : List NodeHealth) {observer : String} {e : NodeHealth}
    (held : g.slot observer nodeId = some e) :
    ∃ newer, (g.merge sender remote).2.slot observer nodeId = some newer ∧ e.tick ≤ newer.tick := by
  rw [slot_merge]
  split
  · obtain ⟨newer, found, -, later⟩ := exists_argmax NodeHealth.time
      (List.mem_append_left (remote.filter fun r => r.nodeId = nodeId) (List.mem_singleton_self e))
    rw [argmax_append, argmax_singleton] at found
    rw [held]
    exact ⟨newer, found, UInt64.le_iff_toNat_le.mpr later⟩
  · exact ⟨e, held, UInt64.le_refl _⟩

theorem consensusView_merge (sender : String) (remote : List NodeHealth) {e : NodeHealth}
    (view : g.consensusView nodeId = some e) :
    ∃ newer, (g.merge sender remote).2.consensusView nodeId = some newer ∧ e.tick ≤ newer.tick := by
  obtain ⟨observer, held⟩ := (consensusView_top view).1
  obtain ⟨kept, slot, later⟩ := slot_merge_le sender remote held
  obtain ⟨top, found, above⟩ := consensusView_of_slot slot
  exact ⟨top, found, UInt64.le_trans later (tick_le_of_rank above)⟩

end

/-- The view of a node is the top of what the observers hold, it does not matter who holds what, and
no message takes it back in time. -/
theorem consensus_is_maximum (selfId : String) (calls : List GossipCall) (nodeId : String) :
    ((HealthGossip.after selfId calls).consensusView nodeId = none ↔
      ∀ observer, (HealthGossip.after selfId calls).slot observer nodeId = none) ∧
    (∀ e, (HealthGossip.after selfId calls).consensusView nodeId = some e →
      (∃ observer, (HealthGossip.after selfId calls).slot observer nodeId = some e) ∧
      ∀ observer other, (HealthGossip.after selfId calls).slot observer nodeId = some other →
        other.rank ≤ e.rank) ∧
    (∀ selfId' calls',
      (∀ e, (∃ observer, (HealthGossip.after selfId' calls').slot observer nodeId = some e) ↔
        ∃ observer, (HealthGossip.after selfId calls).slot observer nodeId = some e) →
      (HealthGossip.after selfId' calls').consensusView nodeId =
        (HealthGossip.after selfId calls).consensusView nodeId) ∧
    ∀ sender remote e, (HealthGossip.after selfId calls).consensusView nodeId = some e →
      ∃ newer, ((HealthGossip.after selfId calls).merge sender remote).2.consensusView nodeId = some newer ∧
        e.tick ≤ newer.tick := by
  refine ⟨consensusView_none, fun e view => consensusView_top view, fun selfId' calls' same => ?_,
    fun sender remote e view => consensusView_merge sender remote view⟩
  cases view : (HealthGossip.after selfId calls).consensusView nodeId with
  | none =>
      refine consensusView_none.mpr fun observer => Option.eq_none_iff_forall_ne_some.mpr fun e held => ?_
      obtain ⟨other, there⟩ := (same e).mp ⟨observer, held⟩
      rw [consensusView_none.mp view other] at there
      cases there
  | some e =>
      obtain ⟨⟨observer, held⟩, top⟩ := consensusView_top view
      obtain ⟨observer', held'⟩ := (same e).mpr ⟨observer, held⟩
      obtain ⟨e', view', above⟩ := consensusView_of_slot held'
      obtain ⟨⟨other, held''⟩, -⟩ := consensusView_top view'
      obtain ⟨back, there⟩ := (same e').mp ⟨other, held''⟩
      have node : e'.nodeId = e.nodeId := (slot_about held'').trans (slot_about held).symm
      rw [view', eq_of_rank node (le_antisymm (top back e' there) above)]

end KaiOs.Health
