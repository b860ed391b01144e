import KaiOs.Ai.ModelRegistry
import KaiOs.Lib.Sha256
import KaiOs.State.Merkle
import Mathlib.Data.List.Induction
import Mathlib.Data.List.Rotate

/-! `ai/src/verified_cache.rs`: a bounded store of artefacts that match their manifests, and what it
keeps of a first-in-first-out queue. -/
namespace KaiOs.Ai
open Utf8

inductive CacheError where
  | hashMismatch (id : String) (version : ModelVersion) (expected got : String)
  | unknownEntry (id : String) (version : ModelVersion)
  deriving DecidableEq

structure VerifiedModel where
  manifest : ModelManifest
  bytes : Bytes
  deriving DecidableEq

structure VerifiedCache where
  entries : BTreeMap ModelKey (ModelManifest × Bytes)
  order : List ModelKey
  maxEntries : ℕ

namespace VerifiedCache

def new (maxEntries : ℕ) : VerifiedCache := ⟨∅, [], maxEntries⟩

/-- The eviction in front of every store: the oldest entry of a full cache goes. -/
def makeRoom (c : VerifiedCache) : VerifiedCache :=
  if c.entries.size ≥ c.maxEntries then
    match c.order with
    | oldest :: order => { c with entries := c.entries.erase oldest, order }
    | [] => c
  else c

/-- `put` behind the check of the hash. -/
def store (c : VerifiedCache) (key : ModelKey) (manifest : ModelManifest) (bytes : Bytes) : VerifiedCache :=
  let c := c.makeRoom
  { c with
    order := if c.entries.contains key then c.order else c.order ++ [key]
    entries := c.entries.insert key (manifest, bytes) }

section
variable (shaHex : Bytes → String)

def put (c : VerifiedCache) (manifest : ModelManifest) (bytes : Bytes) : Except CacheError Unit × VerifiedCache :=
  let got := shaHex bytes
  if got ≠ manifest.sha256 then (.error (.hashMismatch manifest.id manifest.version manifest.sha256 got), c)
  else (.ok (), c.store (manifest.id, manifest.version) manifest bytes)

def get (c : VerifiedCache) (id : String) (version : ModelVersion) : Except CacheError VerifiedModel :=
  match c.entries[((id, version) : ModelKey)]? with
  | none => .error (.unknownEntry id version)
  | some (manifest, bytes) =>
      let got := shaHex bytes
      if got ≠ manifest.sha256 then .error (.hashMismatch id version manifest.sha256 got)
      else .ok ⟨manifest, bytes⟩

end

def len (c : VerifiedCache) : ℕ := c.entries.size

/-- The list holds the keys of the map, each of them once. -/
structure Kept (c : VerifiedCache) : Prop where
  keys : ∀ key, key ∈ c.entries ↔ key ∈ c.order
  distinct : c.order.Nodup
  size : c.entries.size = c.order.length

theorem kept_new (maxEntries : ℕ) : (new maxEntries).Kept :=
  ⟨fun key => by simp [new], List.nodup_nil, Std.ExtTreeMap.size_empty⟩

theorem makeRoom_maxEntries (c : VerifiedCache) : c.makeRoom.maxEntries = c.maxEntries := by
  rw [makeRoom]
  split
  · split <;> rfl
  · rfl

theorem kept_makeRoom {c : VerifiedCache} (kept : c.Kept) : c.makeRoom.Kept := by
  rw [makeRoom]
  split
  · cases order : c.order with
    | nil => exact kept
    | cons oldest rest =>
        obtain ⟨keys, distinct, size⟩ := kept
        rw [order] at keys distinct size
        obtain ⟨gone, apart⟩ := List.nodup_cons.mp distinct
        have held : c.entries.contains oldest = true := (keys oldest).mpr (.head _)
        refine ⟨fun key => ?_, apart, ?_⟩
        · rw [Std.ExtTreeMap.mem_erase, keys, List.mem_cons, ne_eq, Std.LawfulEqCmp.compare_eq_iff_eq]
          constructor
          · rintro ⟨other, rfl | inside⟩
            · exact absurd rfl other
            · exact inside
          · exact fun inside => ⟨fun same => gone (same ▸ inside), .inr inside⟩
        · rw [Std.ExtTreeMap.size_erase, if_pos held, size, List.length_cons, Nat.add_sub_cancel]
  · exact kept

theorem kept_store {c : VerifiedCache} (kept : c.Kept) (key : ModelKey) (manifest : ModelManifest)
    (bytes : Bytes) : (c.store key manifest bytes).Kept := by
  obtain ⟨keys, distinct, size⟩ := kept_makeRoom kept
  rw [store]
  by_cases held : c.makeRoom.entries.contains key = true
  · have listed : key ∈ c.makeRoom.order := (keys key).mp held
    refine ⟨fun other => ?_, ?_, ?_⟩
    · rw [Std.ExtTreeMap.mem_insert, keys, Std.LawfulEqCmp.compare_eq_iff_eq, if_pos held]
      exact or_iff_right_of_imp fun same => same ▸ listed
    · rwa [if_pos held]
    · rw [Std.ExtTreeMap.size_insert, if_pos held, if_pos held, size]
  · have fresh : key ∉ c.makeRoom.order := fun listed => held ((keys key).mpr listed)
    refine ⟨fun other => ?_, ?_, ?_⟩
    · rw [Std.ExtTreeMap.mem_insert, keys, Std.LawfulEqCmp.compare_eq_iff_eq, if_neg held, List.mem_append,
        List.mem_singleton, or_comm, eq_comm]
    · rw [if_neg held]
      exact List.nodup_append_comm.mp (List.nodup_cons.mpr ⟨fresh, distinct⟩)
    · rw [Std.ExtTreeMap.size_insert, if_neg held, if_neg held, size, List.length_append, List.length_singleton]

/-- What a store does to the keys. -/
def storeKey (capacity : ℕ) (keys : List ModelKey) (key : ModelKey) : List ModelKey :=
  let rest := if capacity ≤ keys.length then keys.tail else keys
  if key ∈ rest then rest else rest ++ [key]

theorem makeRoom_order {c : VerifiedCache} (kept : c.Kept) :
    c.makeRoom.order = if c.maxEntries ≤ c.order.length then c.order.tail else c.order := by
  rw [makeRoom, kept.size]
  split_ifs with full
  · cases order : c.order with
    | nil => exact order
    | cons oldest rest => rfl
  · rfl

theorem store_order {c : VerifiedCache} (kept : c.Kept) (key : ModelKey) (manifest : ModelManifest)
    (bytes : Bytes) : (c.store key manifest bytes).order = storeKey c.maxEntries c.order key := by
  have listed : c.makeRoom.entries.contains key = true ↔ key ∈ c.makeRoom.order := (kept_makeRoom kept).keys key
  rw [store, storeKey, ← makeRoom_order kept]
  simp only [listed]

theorem store_maxEntries (c : VerifiedCache) (key : ModelKey) (manifest : ModelManifest) (bytes : Bytes) :
    (c.store key manifest bytes).maxEntries = c.maxEntries := makeRoom_maxEntries c

end VerifiedCache

/-- A bounded queue of keys: a key that is in it stays where it is, a new one in front of a full queue
removes the oldest. -/
def fifoPut (capacity : ℕ) (keys : List ModelKey) (key : ModelKey) : List ModelKey :=
  if key ∈ keys then keys else (if capacity ≤ keys.length then keys.tail else keys) ++ [key]

theorem fifoPut_nodup {capacity : ℕ} {keys : List ModelKey} (distinct : keys.Nodup) (key : ModelKey) :
    (fifoPut capacity keys key).Nodup := by
  rw [fifoPut]
  split_ifs with known full
  · exact distinct
  · exact List.nodup_append_comm.mp
      (List.nodup_cons.mpr ⟨fun member => known (List.mem_of_mem_tail member), distinct.tail⟩)
  · exact List.nodup_append_comm.mp (List.nodup_cons.mpr ⟨known, distinct⟩)

namespace VerifiedCache

/-- The turn behind one more put: it goes on with every key that a full queue has already. -/
def nextTurn (capacity : ℕ) (keys : List ModelKey) (turn : ℕ) (key : ModelKey) : ℕ :=
  if capacity ≤ keys.length ∧ key ∈ keys then turn + 1 else turn

/-- What leaves a full queue and a cache with the same keys: a put of the key whose turn it is, or a
new key when the turns have gone round. -/
def InTurn (capacity : ℕ) (keys : List ModelKey) (turn : ℕ) (key : ModelKey) : Prop :=
  capacity ≤ keys.length →
    if key ∈ keys then keys[turn % keys.length]? = some key else turn % keys.length = 0

instance (capacity : ℕ) (keys : List ModelKey) (turn : ℕ) (key : ModelKey) :
    Decidable (InTurn capacity keys turn key) :=
  inferInstanceAs (Decidable (_ → _))

/-- A list split at the key whose turn it is. -/
structure Turned (keys : List ModelKey) (turn : ℕ) (front : List ModelKey) (first : ModelKey)
    (back : List ModelKey) : Prop where
  split : keys = front ++ first :: back
  offset : front.length = turn % keys.length
  rotated : keys.rotate turn = first :: (back ++ front)

theorem exists_turned {keys : List ModelKey} (held : keys ≠ []) (turn : ℕ) :
    ∃ front first back, Turned keys turn front first back := by
  have inside : turn % keys.length < keys.length := Nat.mod_lt _ (List.length_pos_iff.mpr held)
  refine ⟨keys.take (turn % keys.length), keys[turn % keys.length], keys.drop (turn % keys.length + 1), ?_, ?_, ?_⟩
  · rw [← List.drop_eq_getElem_cons inside, List.take_append_drop]
  · rw [List.length_take, Nat.min_eq_left (Nat.le_of_lt inside)]
  · rw [List.rotate_eq_drop_append_take_mod, List.drop_eq_getElem_cons inside, List.cons_append]

namespace Turned
variable {capacity : ℕ} {keys front back : List ModelKey} {turn : ℕ} {first key : ModelKey}
  (turned : Turned keys turn front first back)
include turned

theorem at_turn : keys[turn % keys.length]? = some first := by
  rw [← turned.offset]
  conv_lhs => rw [turned.split]
  rw [List.getElem?_append_right (Nat.le_refl _), Nat.sub_self, List.getElem?_cons_zero]

theorem mem_iff (k : ModelKey) : k ∈ keys ↔ k = first ∨ k ∈ back ++ front := by
  rw [turned.split, List.mem_append, List.mem_cons, List.mem_append]
  tauto

theorem apart (distinct : keys.Nodup) : first ∉ back ++ front := by
  rw [turned.split, List.nodup_middle, List.nodup_cons] at distinct
  exact fun member => distinct.1 (List.mem_append.mpr (List.mem_append.mp member).symm)

theorem storeKey_eq (full : capacity ≤ keys.length) : storeKey capacity (keys.rotate turn) key =
    if key ∈ back ++ front then back ++ front else back ++ front ++ [key] := by
  rw [storeKey, List.length_rotate, if_pos full, turned.rotated]
  rfl

theorem store_of_inTurn (distinct : keys.Nodup) (full : capacity ≤ keys.length)
    (next : InTurn capacity keys turn key) : storeKey capacity (keys.rotate turn) key =
      (fifoPut capacity keys key).rotate (nextTurn capacity keys turn key) := by
  have allowed := next full
  rw [turned.storeKey_eq full, nextTurn, fifoPut]
  by_cases known : key ∈ keys
  · rw [if_pos known, turned.at_turn, Option.some.injEq] at allowed
    subst allowed
    rw [if_neg (turned.apart distinct), if_pos known, if_pos ⟨full, known⟩, ← List.rotate_rotate, turned.rotated,
      List.rotate_cons_succ, List.rotate_zero]
  · rw [if_neg known] at allowed
    have fresh : key ∉ back ++ front := fun member => known ((turned.mem_iff key).mpr (.inr member))
    have start : front = [] := List.length_eq_zero_iff.mp (turned.offset.trans allowed)
    have queue : keys = first :: back := by
      rw [turned.split, start]
      rfl
    have whole : (back ++ [key]).length = keys.length := by
      rw [queue, List.length_append, List.length_singleton, List.length_cons]
    rw [if_neg fresh, if_neg known, if_pos full, if_neg fun both => known both.2, start, List.append_nil, queue,
      List.tail_cons, ← List.rotate_mod, whole, allowed, List.rotate_zero]

theorem inTurn_of_keys (distinct : keys.Nodup) (full : capacity ≤ keys.length)
    (same : ∀ k, k ∈ storeKey capacity (keys.rotate turn) key ↔ k ∈ fifoPut capacity keys key) :
    InTurn capacity keys turn key := by
  intro _
  have gone := turned.apart distinct
  have held : first ∈ keys := (turned.mem_iff first).mpr (.inl rfl)
  rw [turned.storeKey_eq full, fifoPut] at same
  split_ifs with known
  · rw [turned.at_turn, Option.some.injEq]
    by_contra other
    have behind : key ∈ back ++ front := ((turned.mem_iff key).mp known).resolve_left (Ne.symm other)
    rw [if_pos behind, if_pos known] at same
    exact gone ((same first).mpr held)
  · have fresh : key ∉ back ++ front := fun member => known ((turned.mem_iff key).mpr (.inr member))
    rw [if_neg fresh, if_neg known, if_pos full] at same
    rw [← turned.offset, List.length_eq_zero_iff]
    cases front with
    | nil => rfl
    | cons oldest front =>
        -- the queue has lost its oldest key, the cache the one in turn
        have kept : first ∈ keys.tail ++ [key] := by
          rw [turned.split]
          simp
        rcases List.mem_append.mp ((same first).mpr kept) with behind | new
        · exact absurd behind gone
        · exact absurd (List.mem_singleton.mp new ▸ held) known

end Turned

/-- Where the cache lists the keys of the queue from some turn on, a put leaves it with those of the queue
exactly if it is in turn, and then from the next turn on. -/
theorem storeKey_fifo {capacity : ℕ} (room : 1 ≤ capacity) {keys : List ModelKey} (distinct : keys.Nodup)
    {turn : ℕ} (first : keys.length < capacity → turn = 0) (key : ModelKey) :
    (InTurn capacity keys turn key → storeKey capacity (keys.rotate turn) key =
        (fifoPut capacity keys key).rotate (nextTurn capacity keys turn key)) ∧
      ((∀ k, k ∈ storeKey capacity (keys.rotate turn) key ↔ k ∈ fifoPut capacity keys key) ↔
        InTurn capacity keys turn key) := by
  by_cases full : capacity ≤ keys.length
  · obtain ⟨front, head, back, turned⟩ := exists_turned (List.ne_nil_of_length_pos (room.trans full)) turn
    refine ⟨turned.store_of_inTurn distinct full, turned.inTurn_of_keys distinct full, fun next k => ?_⟩
    rw [turned.store_of_inTurn distinct full next, List.mem_rotate]
  · have same : storeKey capacity keys key = fifoPut capacity keys key := by
      simp only [storeKey, fifoPut, full, if_false]
    obtain rfl := first (Nat.lt_of_not_le full)
    rw [List.rotate_zero, nextTurn, if_neg fun both => full both.1, List.rotate_zero, same]
    exact ⟨fun _ => rfl, iff_of_true (fun _ => Iff.rfl) fun full' => absurd full' full⟩

section
variable (shaHex : Bytes → String)

/-- The cache behind some puts. -/
def after (maxEntries : ℕ) (puts : List (ModelManifest × Bytes)) : VerifiedCache :=
  puts.foldl (fun c p => (c.put shaHex p.1 p.2).2) (new maxEntries)

def accepted (p : ModelManifest × Bytes) : Bool := shaHex p.2 = p.1.sha256

def keyOf (p : ModelManifest × Bytes) : ModelKey := (p.1.id, p.1.version)

/-- The queue behind the accepted ones. -/
def reference (capacity : ℕ) (puts : List (ModelManifest × Bytes)) : List ModelKey :=
  (puts.filter (accepted shaHex)).foldl (fun keys p => fifoPut capacity keys (keyOf p)) []

/-- How often these puts have brought a key to a full queue that had it. -/
def turn (capacity : ℕ) (puts : List (ModelManifest × Bytes)) : ℕ :=
  ((puts.filter (accepted shaHex)).foldl (fun (keys, turn) p =>
    (fifoPut capacity keys (keyOf p), nextTurn capacity keys turn (keyOf p))) ([], 0)).2

variable {shaHex}

theorem put_of_accepted {p : ModelManifest × Bytes} (ok : accepted shaHex p = true) (c : VerifiedCache) :
    (c.put shaHex p.1 p.2).2 = c.store (keyOf p) p.1 p.2 := by
  rw [put, if_neg (not_not.mpr (of_decide_eq_true ok))]
  rfl

theorem put_of_rejected {p : ModelManifest × Bytes} (bad : accepted shaHex p = false) (c : VerifiedCache) :
    (c.put shaHex p.1 p.2).2 = c := by
  rw [put, if_pos (of_decide_eq_false bad)]

theorem after_concat (maxEntries : ℕ) (puts : List (ModelManifest × Bytes)) (p : ModelManifest × Bytes) :
    after shaHex maxEntries (puts ++ [p]) = ((after shaHex maxEntries puts).put shaHex p.1 p.2).2 :=
  List.foldl_concat ..

theorem kept_after (maxEntries : ℕ) (puts : List (ModelManifest × Bytes)) :
    (after shaHex maxEntries puts).Kept ∧ (after shaHex maxEntries puts).maxEntries = maxEntries := by
  induction puts using List.reverseRecOn with
  | nil => exact ⟨kept_new maxEntries, rfl⟩
  | append_singleton puts p ih =>
      obtain ⟨kept, same⟩ := ih
      rw [after_concat]
      cases ok : accepted shaHex p with
      | true =>
          rw [put_of_accepted ok, store_maxEntries]
          exact ⟨kept_store kept _ _ _, same⟩
      | false =>
          rw [put_of_rejected ok]
          exact ⟨kept, same⟩

theorem order_after (maxEntries : ℕ) (puts : List (ModelManifest × Bytes)) :
    (after shaHex maxEntries puts).order =
      (puts.filter (accepted shaHex)).foldl (fun keys p => storeKey maxEntries keys (keyOf p)) [] := by
  induction puts using List.reverseRecOn with
  | nil => rfl
  | append_singleton puts p ih =>
      obtain ⟨kept, same⟩ : (after shaHex maxEntries puts).Kept ∧
        (after shaHex maxEntries puts).maxEntries = maxEntries := kept_after maxEntries puts
      rw [after_concat, List.filter_append, List.filter_singleton, List.foldl_append, ← ih]
      cases ok : accepted shaHex p with
      | true =>
          rw [put_of_accepted ok, store_order kept, same]
          rfl
      | false =>
          rw [put_of_rejected ok]
          rfl

theorem reference_concat (capacity : ℕ) (puts : List (ModelManifest × Bytes)) (p : ModelManifest × Bytes) :
    reference shaHex capacity (puts ++ [p]) = if accepted shaHex p then
      fifoPut capacity (reference shaHex capacity puts) (keyOf p) else reference shaHex capacity puts := by
  rw [reference, List.filter_append, List.filter_singleton, List.foldl_append]
  cases accepted shaHex p <;> rfl

theorem reference_nodup (capacity : ℕ) (puts : List (ModelManifest × Bytes)) :
    (reference shaHex capacity puts).Nodup := by
  induction puts using List.reverseRecOn with
  | nil => exact List.nodup_nil
  | append_singleton puts p ih =>
      rw [reference_concat]
      split
      · exact fifoPut_nodup ih _
      · exact ih

theorem turn_concat (capacity : ℕ) (puts : List (ModelManifest × Bytes)) (p : ModelManifest × Bytes) :
    turn shaHex capacity (puts ++ [p]) = if accepted shaHex p then
      nextTurn capacity (reference shaHex capacity puts) (turn shaHex capacity puts) (keyOf p)
      else turn shaHex capacity puts := by
  have queue (l : List (ModelManifest × Bytes)) : (l.foldl (fun (keys, turn) p =>
      (fifoPut capacity keys (keyOf p), nextTurn capacity keys turn (keyOf p))) ([], 0)).1 =
        l.foldl (fun keys p => fifoPut capacity keys (keyOf p)) [] := by
    induction l using List.reverseRecOn with
    | nil => rfl
    | append_singleton l p ih => rw [List.foldl_concat, List.foldl_concat, ← ih]
  rw [turn, reference, ← queue, List.filter_append, List.filter_singleton, List.foldl_append]
  cases accepted shaHex p <;> rfl

theorem turn_eq_zero {capacity : ℕ} {puts : List (ModelManifest × Bytes)}
    (below : (reference shaHex capacity puts).length < capacity) : turn shaHex capacity puts = 0 := by
  induction puts using List.reverseRecOn with
  | nil => rfl
  | append_singleton puts p ih =>
      rw [reference_concat] at below
      rw [turn_concat]
      split_ifs at below ⊢ with ok
      · have grows : (reference shaHex capacity puts).length < capacity := by
          by_contra full
          rw [Nat.not_lt] at full
          rw [fifoPut] at below
          split_ifs at below with known
          · omega
          · rw [List.length_append, List.length_tail, List.length_singleton] at below
            omega
        rw [nextTurn, if_neg fun both => absurd both.1 (Nat.not_le_of_lt grows)]
        exact ih grows
      · exact ih below

/-- Where the cache lists the keys of the queue from its turn on, it does so behind a put in turn, and only
behind such a put the keys are those of the queue. -/
theorem put_keys_iff {capacity : ℕ} (room : 1 ≤ capacity) {puts : List (ModelManifest × Bytes)}
    (agree : (after shaHex capacity puts).order = (reference shaHex capacity puts).rotate (turn shaHex capacity puts))
    (p : ModelManifest × Bytes) :
    ((accepted shaHex p = true →
        InTurn capacity (reference shaHex capacity puts) (turn shaHex capacity puts) (keyOf p)) →
      (after shaHex capacity (puts ++ [p])).order =
        (reference shaHex capacity (puts ++ [p])).rotate (turn shaHex capacity (puts ++ [p]))) ∧
    ((∀ key, key ∈ (after shaHex capacity (puts ++ [p])).entries ↔ key ∈ reference shaHex capacity (puts ++ [p])) ↔
      (accepted shaHex p = true →
        InTurn capacity (reference shaHex capacity puts) (turn shaHex capacity puts) (keyOf p))) := by
  obtain ⟨kept, same⟩ : (after shaHex capacity puts).Kept ∧ (after shaHex capacity puts).maxEntries = capacity :=
    kept_after capacity puts
  obtain ⟨ordered, keys⟩ := storeKey_fifo room (reference_nodup capacity puts)
    (@turn_eq_zero shaHex capacity puts) (keyOf p)
  simp only [(kept_after capacity (puts ++ [p])).1.keys]
  rw [reference_concat, turn_concat, after_concat]
  cases ok : accepted shaHex p with
  | true =>
      simp only [if_true, forall_true_left]
      rw [put_of_accepted ok, store_order kept, same, agree]
      exact ⟨ordered, keys⟩
  | false =>
      simp only [Bool.false_eq_true, if_false, false_imp_iff, forall_true_left]
      rw [put_of_rejected ok, agree]
      exact ⟨rfl, iff_of_true (fun _ => List.mem_rotate) trivial⟩

theorem forall_prefix_concat {α : Type} {P : List α → Prop} (l : List α) (a : α) :
    (∀ front, front <+: l ++ [a] → P front) ↔ (∀ front, front <+: l → P front) ∧ P (l ++ [a]) := by
  constructor
  · exact fun all => ⟨fun front begun => all front (begun.trans (List.prefix_append l [a])), all _ List.prefix_rfl⟩
  · rintro ⟨early, whole⟩ front begun
    rcases List.prefix_concat_iff.mp begun with rfl | begun
    · exact whole
    · exact early front begun

/-- A condition on every element and on those in front of it. -/
theorem forall_behind_concat {α : Type} {P : List α → α → Prop} (l : List α) (a : α) :
    (∀ front b, front ++ [b] <+: l ++ [a] → P front b) ↔ (∀ front b, front ++ [b] <+: l → P front b) ∧ P l a := by
  constructor
  · exact fun all => ⟨fun front b begun => all front b (begun.trans (List.prefix_append l [a])),
      all l a List.prefix_rfl⟩
  · rintro ⟨early, here⟩ front b begun
    rcases List.prefix_concat_iff.mp begun with same | begun
    · obtain ⟨rfl, last⟩ := List.append_inj' same rfl
      cases last
      exact here
    · exact early front b begun

/-- In a run of puts the cached keys are at all times those of the queue, exactly if every accepted put
is in turn. -/
theorem cache_fifo_iff {capacity : ℕ} (room : 1 ≤ capacity) (puts : List (ModelManifest × Bytes)) :
    (∀ front, front <+: puts → ∀ key,
      key ∈ (after shaHex capacity front).entries ↔ key ∈ reference shaHex capacity front) ↔
    ∀ front p, front ++ [p] <+: puts → accepted shaHex p = true →
      InTurn capacity (reference shaHex capacity front) (turn shaHex capacity front) (keyOf p) := by
  suffices both : (_ ↔ _) ∧ ((∀ front p, front ++ [p] <+: puts → accepted shaHex p = true →
      InTurn capacity (reference shaHex capacity front) (turn shaHex capacity front) (keyOf p)) →
      (after shaHex capacity puts).order = (reference shaHex capacity puts).rotate (turn shaHex capacity puts)) from
    both.1
  induction puts using List.reverseRecOn with
  | nil =>
      refine ⟨iff_of_true (fun front begun key => ?_) fun front p begun => ?_, fun _ => rfl⟩
      · rw [List.prefix_nil.mp begun]
        exact (kept_new capacity).keys key
      · exact absurd (List.prefix_nil.mp begun) (by simp)
  | append_singleton puts last ih =>
      obtain ⟨agree_iff, ordered⟩ := ih
      rw [forall_prefix_concat, forall_behind_concat, agree_iff]
      refine ⟨and_congr_right fun early => (put_keys_iff room (ordered early) last).2, fun ⟨early, here⟩ => ?_⟩
      exact (put_keys_iff room (ordered early) last).1 here

end

/-- `sha_hex` -/
def sha256Hex (bs : Bytes) : String := String.ofList ((Sha256.digest (bs.map UInt8.toNat)).flatMap Sha256.hexWord)

/-- A version of a model with its own hash in the manifest. -/
def artefact (major : UInt32) (bytes : Bytes) : ModelManifest × Bytes :=
  (⟨"m", ⟨major, 0, 0⟩, "test", UInt64.ofNat bytes.length, sha256Hex bytes⟩, bytes)

theorem artefact_accepted (major : UInt32) (bytes : Bytes) : accepted sha256Hex (artefact major bytes) = true :=
  decide_eq_true rfl

/-- The older of two versions is put again into a full cache, and nothing is lost. -/
theorem cache_fifo_again :
    keyOf (artefact 1 [101]) ∈
      (after sha256Hex 2 [artefact 1 [101], artefact 2 [122], artefact 1 [101]]).entries ∧
    keyOf (artefact 2 [122]) ∈
      (after sha256Hex 2 [artefact 1 [101], artefact 2 [122], artefact 1 [101]]).entries := by
  have agree := (@cache_fifo_iff sha256Hex 2 (Nat.le_succ 1)
    [artefact 1 [101], artefact 2 [122], artefact 1 [101]]).mpr (fun front p begun _ => ?_) _ List.prefix_rfl
  · rw [agree, agree]
    simp only [reference, List.filter_cons, artefact_accepted, if_true, List.filter_nil]
    decide
  · obtain ⟨rest, split⟩ := begun
    -- one of the three puts, behind those in front of it
    rcases front with _ | ⟨a, _ | ⟨b, _ | ⟨c, front⟩⟩⟩
    · cases split
      decide
    · cases split
      simp only [reference, turn, List.filter_cons, artefact_accepted, if_true, List.filter_nil]
      decide
    · cases split
      simp only [reference, turn, List.filter_cons, artefact_accepted, if_true, List.filter_nil]
      decide
    · simp at split

/-- The second version is put again, and the first one is gone. -/
theorem repeated_put_evicts :
    keyOf (artefact 1 [101]) ∈ (after sha256Hex 2 [artefact 1 [101], artefact 2 [122]]).entries ∧
    keyOf (artefact 2 [122]) ∈ (after sha256Hex 2 [artefact 1 [101], artefact 2 [122]]).entries ∧
    accepted sha256Hex (artefact 2 [122]) = true ∧
    keyOf (artefact 1 [101]) ∉
      (after sha256Hex 2 [artefact 1 [101], artefact 2 [122], artefact 2 [122]]).entries := by
  simp only [(kept_after _ _).1.keys, order_after, List.filter_cons, artefact_accepted, if_true, List.filter_nil]
  decide

end VerifiedCache
end KaiOs.Ai
