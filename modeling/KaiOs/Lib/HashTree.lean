import Mathlib.Data.List.Nodup
import Mathlib.Data.Set.Function

/-! Hash trees that are built in rounds: neighbours are joined, and an odd last
element is joined with itself, until one is left. The tree behind a digest is
compared with another tree through the texts that were hashed. -/
namespace HashTree

/-- One round over a list. -/
def joinRound {β : Type*} (join : β → β → β) : List β → List β
  | [] => []
  | [last] => [join last last]
  | left :: right :: rest => join left right :: joinRound join rest

theorem joinRound_length {β : Type*} (join : β → β → β) (level : List β) :
    (joinRound join level).length = (level.length + 1) / 2 := by
  induction level using joinRound.induct with
  | case1 => simp only [joinRound, List.length_nil, Nat.zero_add, Nat.reduceDiv]
  | case2 last => simp only [joinRound, List.length_cons, List.length_nil, Nat.zero_add]
  | case3 left right rest ih =>
      simp only [joinRound, List.length_cons, ih]
      omega

theorem joinRound_map {β γ : Type*} {f : β → γ} {join : β → β → β} {join' : γ → γ → γ}
    (hom : ∀ a b, f (join a b) = join' (f a) (f b)) (level : List β) :
    (joinRound join level).map f = joinRound join' (level.map f) := by
  induction level using joinRound.induct with
  | case1 => rfl
  | case2 last => simp only [joinRound, List.map_cons, List.map_nil, hom]
  | case3 left right rest ih => simp only [joinRound, List.map_cons, hom, ih]

/-- What is left after all rounds; nothing for an empty list. -/
def crown {β : Type*} (join : β → β → β) (level : List β) : Option β :=
  if _more : 1 < level.length then crown join (joinRound join level) else level.head?
termination_by level.length
decreasing_by rw [joinRound_length]; omega

theorem crown_of_more {β : Type*} (join : β → β → β) {level : List β} (more : 1 < level.length) :
    crown join level = crown join (joinRound join level) := by
  rw [crown, dif_pos more]

@[simp] theorem crown_nil {β : Type*} (join : β → β → β) : crown join [] = none := by
  simp [crown]

@[simp] theorem crown_singleton {β : Type*} (join : β → β → β) (b : β) : crown join [b] = some b := by
  simp [crown]

theorem crown_map {β γ : Type*} {f : β → γ} {join : β → β → β} {join' : γ → γ → γ}
    (hom : ∀ a b, f (join a b) = join' (f a) (f b)) (level : List β) :
    (crown join level).map f = crown join' (level.map f) := by
  induction level using crown.induct join with
  | case1 level more ih =>
      rw [crown_of_more join more, ih, joinRound_map hom]
      exact (crown_of_more join' (by simpa only [List.length_map] using more)).symm
  | case2 level few =>
      rw [crown, dif_neg few, crown, dif_neg (by simpa using few), List.head?_map]

theorem crown_isSome {β : Type*} (join : β → β → β) {level : List β} (full : level ≠ []) :
    (crown join level).isSome := by
  induction level using crown.induct join with
  | case1 level more ih =>
      rw [crown_of_more join more]
      apply ih
      intro empty
      have length := joinRound_length join level
      rw [empty, List.length_nil] at length
      omega
  | case2 level few =>
      rw [crown, dif_neg few, List.isSome_head?]
      simpa using full

inductive JoinTree (α : Type*) where
  | leaf (a : α)
  | node (left right : JoinTree α)

/-- The tree of a list of leaves. -/
def tree {α : Type*} (leaves : List α) : Option (JoinTree α) := crown .node (leaves.map .leaf)

section Leaves
variable {α : Type*}

def JoinTree.depth : JoinTree α → ℕ
  | .leaf _ => 0
  | .node left _ => left.depth + 1

theorem mem_joinRound {level : List (JoinTree α)} {t : JoinTree α}
    (member : t ∈ joinRound .node level) :
    ∃ left ∈ level, ∃ right ∈ level, t = .node left right := by
  induction level using joinRound.induct with
  | case1 => exact nomatch member
  | case2 last =>
      rw [joinRound, List.mem_singleton] at member
      exact ⟨last, List.mem_cons_self, last, List.mem_cons_self, member⟩
  | case3 left right rest ih =>
      rcases List.mem_cons.mp member with here | later
      · exact ⟨left, by simp, right, by simp, here⟩
      · obtain ⟨l, inl, r, inr, same⟩ := ih later
        exact ⟨l, by simp [inl], r, by simp [inr], same⟩

theorem joinRound_nodup {level : List (JoinTree α)} (distinct : level.Nodup) :
    (joinRound .node level).Nodup := by
  induction level using joinRound.induct with
  | case1 => exact .nil
  | case2 last => simp [joinRound]
  | case3 left right rest ih =>
      simp only [List.nodup_cons, List.mem_cons, not_or] at distinct
      refine List.nodup_cons.mpr ⟨?_, ih distinct.2.2⟩
      intro member
      obtain ⟨l, inl, r, _, same⟩ := mem_joinRound member
      cases same
      exact distinct.1.2 inl

/-- The odd last tree is the only one paired with itself, so a round can be undone. -/
theorem joinRound_inj {level level' : List (JoinTree α)} (distinct : level.Nodup)
    (distinct' : level'.Nodup) (same : joinRound .node level = joinRound .node level') :
    level = level' := by
  induction level using joinRound.induct generalizing level' with
  | case1 =>
      match level' with
      | [] => rfl
      | [_] => cases same
      | _ :: _ :: _ => cases same
  | case2 last =>
      match level' with
      | [] => cases same
      | [_] =>
          cases same
          rfl
      | left :: right :: rest =>
          simp only [joinRound, List.cons.injEq, JoinTree.node.injEq] at same
          simp [← same.1.1, ← same.1.2] at distinct'
  | case3 left right rest ih =>
      match level' with
      | [] => cases same
      | [last] =>
          simp only [joinRound, List.cons.injEq, JoinTree.node.injEq] at same
          simp [same.1.1, same.1.2] at distinct
      | left' :: right' :: rest' =>
          simp only [joinRound, List.cons.injEq, JoinTree.node.injEq] at same
          simp only [List.nodup_cons] at distinct distinct'
          rw [same.1.1, same.1.2, ih distinct.2.2 distinct'.2.2 same.2]

theorem joinRound_depth {level : List (JoinTree α)} {k : ℕ} (even : ∀ t ∈ level, t.depth = k) :
    ∀ t ∈ joinRound .node level, t.depth = k + 1 := by
  intro t member
  obtain ⟨l, inl, r, _, rfl⟩ := mem_joinRound member
  rw [JoinTree.depth, even l inl]

theorem crown_depth {level : List (JoinTree α)} {k : ℕ} (even : ∀ t ∈ level, t.depth = k)
    {top : JoinTree α} (h : crown .node level = some top) :
    k ≤ top.depth ∧ (1 < level.length → k < top.depth) := by
  induction level using crown.induct (@JoinTree.node α) generalizing k with
  | case1 level more ih =>
      rw [crown_of_more .node more] at h
      have above := (ih (joinRound_depth even) h).1
      exact ⟨by omega, fun _ => above⟩
  | case2 level few =>
      rw [crown, dif_neg few] at h
      have depth := even top (List.mem_of_mem_head? h)
      exact ⟨depth.ge, fun more => absurd more few⟩

theorem short_eq {β : Type*} {xs ys : List β} (hx : xs.length ≤ 1) (hy : ys.length ≤ 1)
    (same : xs.head? = ys.head?) : xs = ys := by
  cases xs <;> cases ys <;> simp_all

/-- Levels of distinct trees of one depth are determined by what the rounds leave. -/
theorem crown_inj {level level' : List (JoinTree α)} {k : ℕ} (distinct : level.Nodup)
    (distinct' : level'.Nodup) (even : ∀ t ∈ level, t.depth = k)
    (even' : ∀ t ∈ level', t.depth = k) (same : crown .node level = crown .node level') :
    level = level' := by
  induction level using crown.induct (@JoinTree.node α) generalizing level' k with
  | case1 level more ih =>
      obtain ⟨top, top_eq⟩ := Option.isSome_iff_exists.mp
        (crown_isSome .node (List.ne_nil_of_length_pos (Nat.zero_lt_of_lt more)))
      have high := (crown_depth even top_eq).2 more
      by_cases more' : 1 < level'.length
      · rw [crown_of_more .node more, crown_of_more .node more'] at same
        exact joinRound_inj distinct distinct' (ih (joinRound_nodup distinct) (joinRound_nodup distinct')
          (joinRound_depth even) (joinRound_depth even') same)
      · rw [same, crown, dif_neg more'] at top_eq
        have low := even' top (List.mem_of_mem_head? top_eq)
        omega
  | case2 level few =>
      have last : crown .node level = level.head? := by rw [crown, dif_neg few]
      by_cases more' : 1 < level'.length
      · obtain ⟨top, top_eq⟩ := Option.isSome_iff_exists.mp
          (crown_isSome .node (List.ne_nil_of_length_pos (Nat.zero_lt_of_lt more')))
        have high := (crown_depth even' top_eq).2 more'
        rw [← same, last] at top_eq
        have low := even top (List.mem_of_mem_head? top_eq)
        omega
      · rw [last, crown, dif_neg more'] at same
        exact short_eq (Nat.le_of_not_lt few) (Nat.le_of_not_lt more') same

/-- A tree determines its leaves, if these are distinct. -/
theorem tree_inj {xs ys : List α} (distinct : xs.Nodup) (distinct' : ys.Nodup)
    (same : tree xs = tree ys) : xs = ys := by
  have inj : Function.Injective (@JoinTree.leaf α) := fun _ _ => JoinTree.leaf.inj
  have even (zs : List α) : ∀ t ∈ zs.map JoinTree.leaf, t.depth = 0 := by
    intro t member
    obtain ⟨z, _, rfl⟩ := List.mem_map.mp member
    rfl
  exact List.map_injective_iff.mpr inj
    (crown_inj (distinct.map inj) (distinct'.map inj) (even xs) (even ys) same)

def JoinTree.All (p : α → Prop) : JoinTree α → Prop
  | .leaf a => p a
  | .node left right => left.All p ∧ right.All p

theorem tree_all {p : α → Prop} {xs : List α} {top : JoinTree α} (h : tree xs = some top)
    (every : ∀ x ∈ xs, p x) : top.All p := by
  have general (level : List (JoinTree α)) (all : ∀ t ∈ level, t.All p)
      (left_over : crown .node level = some top) : top.All p := by
    induction level using crown.induct (@JoinTree.node α) with
    | case1 level more ih =>
        rw [crown_of_more .node more] at left_over
        refine ih (fun t member => ?_) left_over
        obtain ⟨l, inl, r, inr, rfl⟩ := mem_joinRound member
        exact ⟨all l inl, all r inr⟩
    | case2 level few =>
        rw [crown, dif_neg few] at left_over
        exact all top (List.mem_of_mem_head? left_over)
  refine general (xs.map .leaf) (fun t member => ?_) h
  obtain ⟨x, inside, rfl⟩ := List.mem_map.mp member
  exact every x inside

end Leaves

section Digest
variable {α T δ : Type*} (hash : T → δ) (leafText : α → T) (nodeText : δ → δ → T)

/-- The text hashed for a tree's root. -/
def JoinTree.text : JoinTree α → T
  | .leaf a => leafText a
  | .node left right => nodeText (hash left.text) (hash right.text)

def JoinTree.digest (t : JoinTree α) : δ := hash (t.text hash leafText nodeText)

/-- Every text hashed in a tree. -/
def JoinTree.texts : JoinTree α → Set T
  | .leaf a => {leafText a}
  | .node left right =>
      insert (nodeText (left.digest hash leafText nodeText) (right.digest hash leafText nodeText))
        (left.texts ∪ right.texts)

theorem JoinTree.text_mem_texts (t : JoinTree α) :
    t.text hash leafText nodeText ∈ t.texts hash leafText nodeText := by
  cases t with
  | leaf a => exact Set.mem_singleton _
  | node left right => exact Set.mem_insert _ _

/-- The digest of a list's tree is what the rounds leave of the leaves' digests. -/
theorem tree_digest (leaves : List α) :
    (tree leaves).map (JoinTree.digest hash leafText nodeText) =
      crown (fun a b => hash (nodeText a b)) (leaves.map fun a => hash (leafText a)) := by
  have rounds : (crown .node (leaves.map .leaf)).map (JoinTree.digest hash leafText nodeText) =
      crown (fun a b => hash (nodeText a b))
        ((leaves.map .leaf).map (JoinTree.digest hash leafText nodeText)) :=
    crown_map (fun _ _ => rfl) _
  rw [tree, rounds, List.map_map]
  rfl

/-- The trees hash the same texts node by node. A leaf may stand against an inner
node whose text it spells out. -/
inductive Alike : JoinTree α → JoinTree α → Prop where
  | leaf {a b : α} : leafText a = leafText b → Alike (.leaf a) (.leaf b)
  | node {l r l' r' : JoinTree α} : Alike l l' → Alike r r' → Alike (.node l r) (.node l' r')
  | spelled {a : α} {l r : JoinTree α} :
      leafText a = nodeText (l.digest hash leafText nodeText) (r.digest hash leafText nodeText) →
      Alike (.leaf a) (.node l r)
  | spells {a : α} {l r : JoinTree α} :
      nodeText (l.digest hash leafText nodeText) (r.digest hash leafText nodeText) = leafText a →
      Alike (.node l r) (.leaf a)

variable {hash leafText nodeText}

theorem Alike.text_eq {t u : JoinTree α} (h : Alike hash leafText nodeText t u) :
    t.text hash leafText nodeText = u.text hash leafText nodeText := by
  induction h with
  | leaf same => exact same
  | node _ _ left right => simp only [JoinTree.text, left, right]
  | spelled same => exact same
  | spells same => exact same

/-- Where a leaf's text names the leaf and is no node's text, alike trees are equal. -/
theorem Alike.eq {p : α → Prop} (names : ∀ a b, p a → p b → leafText a = leafText b → a = b)
    (no_node : ∀ a l r, p a → leafText a ≠ nodeText (hash l) (hash r)) {t u : JoinTree α}
    (h : Alike hash leafText nodeText t u) (ht : t.All p) (hu : u.All p) : t = u := by
  induction h with
  | leaf same => rw [names _ _ ht hu same]
  | node _ _ left right => rw [left ht.1 hu.1, right ht.2 hu.2]
  | spelled same => exact absurd same (no_node _ _ _ ht)
  | spells same => exact absurd same.symm (no_node _ _ _ hu)

/-- Without collisions on the hashed texts, and with node texts that can be read back,
equal digests mean trees that are alike, and only those. -/
theorem digest_eq_iff {t u : JoinTree α}
    (inj : Set.InjOn hash (t.texts hash leafText nodeText ∪ u.texts hash leafText nodeText))
    (readable : ∀ x y x' y' : T, nodeText (hash x) (hash y) = nodeText (hash x') (hash y') →
      hash x = hash x' ∧ hash y = hash y') :
    t.digest hash leafText nodeText = u.digest hash leafText nodeText ↔
      Alike hash leafText nodeText t u := by
  refine ⟨fun same => ?_, fun alike => congrArg hash alike.text_eq⟩
  have text := inj (.inl (t.text_mem_texts hash leafText nodeText))
    (.inr (u.text_mem_texts hash leafText nodeText)) same
  clear same
  induction t generalizing u with
  | leaf a =>
      cases u with
      | leaf b => exact .leaf text
      | node l r => exact .spelled text
  | node l r ihl ihr =>
      cases u with
      | leaf b => exact .spells text
      | node l' r' =>
          obtain ⟨left, right⟩ := readable _ _ _ _ text
          have injl : Set.InjOn hash
              (l.texts hash leafText nodeText ∪ l'.texts hash leafText nodeText) :=
            inj.mono (Set.union_subset_union (fun _ m => .inr (.inl m)) (fun _ m => .inr (.inl m)))
          have injr : Set.InjOn hash
              (r.texts hash leafText nodeText ∪ r'.texts hash leafText nodeText) :=
            inj.mono (Set.union_subset_union (fun _ m => .inr (.inr m)) (fun _ m => .inr (.inr m)))
          exact .node
            (ihl injl (injl (.inl (l.text_mem_texts ..)) (.inr (l'.text_mem_texts ..)) left))
            (ihr injr (injr (.inl (r.text_mem_texts ..)) (.inr (r'.text_mem_texts ..)) right))

end Digest
end HashTree
