import KaiOs.Lib.HashTree

/-! Paths through hash trees. A path lists the siblings met on the way from a place up
to the root, each with the side it stands on. A path that is not taken from a tree can
still end in the digest of the tree; the texts hashed on the way say when. -/
namespace HashTree

section Climb
variable {β γ : Type*} (join : β → β → β)

/-- One step up. The sibling stands on the right, or on the left. -/
def stepUp (join : β → β → γ) (cur : β) (sibling : β × Bool) : γ :=
  if sibling.2 then join cur sibling.1 else join sibling.1 cur

def climb (start : β) (path : List (β × Bool)) : β := path.foldl (stepUp join) start

/-- A round joins the places `2 * j` and `2 * j + 1`; an odd last one is its own sibling. -/
theorem joinRound_getElem? (level : List β) (j : ℕ) :
    (joinRound join level)[j]? =
      level[2 * j]?.map fun left => join left (level[2 * j + 1]?.getD left) := by
  induction level using joinRound.induct generalizing j with
  | case1 => simp only [joinRound, List.getElem?_nil, Option.map_none]
  | case2 last =>
      cases j with
      | zero => simp only [joinRound, Nat.mul_zero, List.getElem?_cons_zero, Option.map_some,
          List.getElem?_cons_succ, List.getElem?_nil, Option.getD_none]
      | succ j => simp only [joinRound, Nat.mul_succ, List.getElem?_cons_succ, List.getElem?_nil,
          Option.map_none]
  | case3 left right rest ih =>
      cases j with
      | zero => simp only [joinRound, Nat.mul_zero, List.getElem?_cons_zero, Option.map_some,
          List.getElem?_cons_succ, Option.getD_some]
      | succ j => simp only [joinRound, Nat.mul_succ, List.getElem?_cons_succ, ih]

end Climb

section Digest
variable {α T δ : Type*} (hash : T → δ) (leafText : α → T) (nodeText : δ → δ → T)

/-- The last text hashed on a path that starts at the digest of a text. -/
def climbText (start : T) (path : List (δ × Bool)) : T :=
  path.foldl (fun text sibling => stepUp nodeText (hash text) sibling) start

/-- All texts hashed on the path. -/
def climbTexts (start : T) (path : List (δ × Bool)) : Set T :=
  {text | ∃ below, below <+: path ∧ text = climbText hash nodeText start below}

theorem climb_hash (start : T) (path : List (δ × Bool)) :
    climb (fun a b => hash (nodeText a b)) (hash start) path =
      hash (climbText hash nodeText start path) := by
  induction path generalizing start with
  | nil => rfl
  | cons sibling path ih =>
      have step : stepUp (fun a b => hash (nodeText a b)) (hash start) sibling =
          hash (stepUp nodeText (hash start) sibling) := by
        unfold stepUp
        split_ifs
        · rfl
        · rfl
      simp only [climb, climbText, List.foldl_cons] at ih ⊢
      rw [step, ih]

theorem climbText_concat (start : T) (path : List (δ × Bool)) (sibling : δ × Bool) :
    climbText hash nodeText start (path ++ [sibling]) =
      stepUp nodeText (hash (climbText hash nodeText start path)) sibling := by
  simp only [climbText, List.foldl_append, List.foldl_cons, List.foldl_nil]

theorem climbText_mem (start : T) (path : List (δ × Bool)) :
    climbText hash nodeText start path ∈ climbTexts hash nodeText start path :=
  ⟨path, List.prefix_rfl, rfl⟩

theorem climbTexts_concat (start : T) (path : List (δ × Bool)) (sibling : δ × Bool) :
    climbTexts hash nodeText start path ⊆ climbTexts hash nodeText start (path ++ [sibling]) := by
  rintro text ⟨below, begins, rfl⟩
  exact ⟨below, begins.trans (List.prefix_append path [sibling]), rfl⟩

/-- Where a path from a given text can meet a tree: at a leaf whose text is the last one
hashed, or at an inner node whose text is the given one. From there on it is the tree's. -/
inductive Leads (start : T) : JoinTree α → List (δ × Bool) → Prop where
  | leaf {a : α} {path : List (δ × Bool)} :
      climbText hash nodeText start path = leafText a → Leads start (.leaf a) path
  | node {l r : JoinTree α} :
      start = nodeText (l.digest hash leafText nodeText) (r.digest hash leafText nodeText) →
      Leads start (.node l r) []
  | left {l r : JoinTree α} {path : List (δ × Bool)} : Leads start l path →
      Leads start (.node l r) (path ++ [(r.digest hash leafText nodeText, true)])
  | right {l r : JoinTree α} {path : List (δ × Bool)} : Leads start r path →
      Leads start (.node l r) (path ++ [(l.digest hash leafText nodeText, false)])

variable {hash leafText nodeText}

theorem Leads.text_eq {start : T} {t : JoinTree α} {path : List (δ × Bool)}
    (h : Leads hash leafText nodeText start t path) :
    climbText hash nodeText start path = t.text hash leafText nodeText := by
  induction h with
  | leaf same => exact same
  | node same => exact same
  | left _ ih =>
      rw [climbText_concat, ih]
      rfl
  | right _ ih =>
      rw [climbText_concat, ih]
      rfl

/-- Without collisions on the hashed texts, and with node texts whose children can be read
back, a path ends in a tree's digest exactly when it leads into the tree. -/
theorem climb_eq_digest_iff {start : T} {t : JoinTree α} {path : List (δ × Bool)}
    (inj : Set.InjOn hash (t.texts hash leafText nodeText ∪ climbTexts hash nodeText start path))
    (left : ∀ (x y z : T) (s : δ), nodeText (hash x) s = nodeText (hash y) (hash z) →
      hash x = hash y ∧ s = hash z)
    (right : ∀ (x y z : T) (s : δ), nodeText s (hash x) = nodeText (hash y) (hash z) →
      s = hash y ∧ hash x = hash z) :
    hash (climbText hash nodeText start path) = t.digest hash leafText nodeText ↔
      Leads hash leafText nodeText start t path := by
  refine ⟨fun same => ?_, fun leads => congrArg hash leads.text_eq⟩
  have text := inj (.inr (climbText_mem hash nodeText start path))
    (.inl (t.text_mem_texts hash leafText nodeText)) same
  clear same
  induction t generalizing path with
  | leaf a => exact .leaf text
  | node l r ihl ihr =>
      rcases List.eq_nil_or_concat' path with rfl | ⟨below, ⟨sibling, side⟩, rfl⟩
      · exact .node text
      · have injl : Set.InjOn hash
            (l.texts hash leafText nodeText ∪ climbTexts hash nodeText start below) :=
          inj.mono (Set.union_subset_union (fun _ m => .inr (.inl m)) (climbTexts_concat ..))
        have injr : Set.InjOn hash
            (r.texts hash leafText nodeText ∪ climbTexts hash nodeText start below) :=
          inj.mono (Set.union_subset_union (fun _ m => .inr (.inr m)) (climbTexts_concat ..))
        rw [climbText_concat] at text
        cases side with
        | true =>
            obtain ⟨here, rfl⟩ := left _ _ _ _ text
            exact .left (ihl injl (injl (.inr (climbText_mem ..)) (.inl (l.text_mem_texts ..)) here))
        | false =>
            obtain ⟨rfl, here⟩ := right _ _ _ _ text
            exact .right (ihr injr (injr (.inr (climbText_mem ..)) (.inl (r.text_mem_texts ..)) here))

/-- Where a leaf's text names the leaf and is the text of no step, a path from a leaf that
leads into a tree starts at one of its leaves. -/
theorem Leads.mem {p : α → Prop} {a : α} {t : JoinTree α} {path : List (δ × Bool)}
    (h : Leads hash leafText nodeText (leafText a) t path) (all : t.All p)
    (names : ∀ b, p b → leafText a = leafText b → a = b)
    (no_step : ∀ b x sibling, p b → stepUp nodeText (hash x) sibling ≠ leafText b)
    (no_node : ∀ x y, leafText a ≠ nodeText (hash x) (hash y)) : p a := by
  induction h with
  | leaf same =>
      rename_i b path
      rcases List.eq_nil_or_concat' path with rfl | ⟨below, sibling, rfl⟩
      · rw [names b all same]
        exact all
      · rw [climbText_concat] at same
        exact absurd same (no_step b _ sibling all)
  | node same => exact absurd same (no_node _ _)
  | left _ ih => exact ih all.1
  | right _ ih => exact ih all.2

end Digest
end HashTree
