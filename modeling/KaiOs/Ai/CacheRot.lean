import KaiOs.Ai.CacheCapacity

/-! A cache whose storage changes its bytes. Beside it runs one whose storage does not: the two keep the same keys,
and what is not as it was put is not loaded. -/
namespace KaiOs.Ai.VerifiedCache
open Utf8

/-- Other bytes are stored under the key than were. -/
def rot (c : VerifiedCache) (key : ModelKey) (bytes : Bytes) : VerifiedCache :=
  match c.entries[key]? with
  | none => c
  | some (manifest, _) => { c with entries := c.entries.insert key (manifest, bytes) }

/-- The first byte is inverted, if there is one. -/
def tamperForTest (c : VerifiedCache) (id : String) (version : ModelVersion) : Bool × VerifiedCache :=
  match c.entries[((id, version) : ModelKey)]? with
  | none | some (_, []) => (false, c)
  | some (manifest, b :: bytes) =>
      (true, { c with entries := c.entries.insert (id, version) (manifest, (b ^^^ 0xFF) :: bytes) })

inductive CacheAct where
  | put (manifest : ModelManifest) (bytes : Bytes)
  | rot (key : ModelKey) (bytes : Bytes)
  | tamper (id : String) (version : ModelVersion)

namespace CacheAct

def apply (shaHex : Bytes → String) (c : VerifiedCache) : CacheAct → VerifiedCache
  | put manifest bytes => (c.put shaHex manifest bytes).2
  | rot key bytes => c.rot key bytes
  | tamper id version => (c.tamperForTest id version).2

def asPut : CacheAct → Option (ModelManifest × Bytes)
  | put manifest bytes => some (manifest, bytes)
  | rot _ _ | tamper _ _ => none

end CacheAct

section
variable (shaHex : Bytes → String)

def rotted (maxEntries : ℕ) (acts : List CacheAct) : VerifiedCache :=
  acts.foldl (CacheAct.apply shaHex) (new maxEntries)

/-- The same puts into storage that keeps its bytes. -/
def clean (maxEntries : ℕ) (acts : List CacheAct) : VerifiedCache :=
  after shaHex maxEntries (acts.filterMap CacheAct.asPut)

/-- The last artefact accepted under the key. -/
def lastPut (puts : List (ModelManifest × Bytes)) (key : ModelKey) : Option (ModelManifest × Bytes) :=
  ((puts.filter (accepted shaHex)).filter fun p => keyOf p = key).getLast?

end

/-- The caches differ in nothing but stored bytes. -/
structure Shadows (c clean : VerifiedCache) : Prop where
  kept : c.Kept
  kept_clean : clean.Kept
  order : c.order = clean.order
  maxEntries : c.maxEntries = clean.maxEntries
  manifests : ∀ key : ModelKey, c.entries[key]?.map Prod.fst = clean.entries[key]?.map Prod.fst

variable {shaHex : Bytes → String} {c d : VerifiedCache}

theorem tamperForTest_rots (c : VerifiedCache) (id : String) (version : ModelVersion) :
    (c.tamperForTest id version).2 = c ∨ ∃ bytes, (c.tamperForTest id version).2 = c.rot (id, version) bytes := by
  rw [tamperForTest]
  cases held : c.entries[((id, version) : ModelKey)]? with
  | none => exact .inl rfl
  | some e =>
      obtain ⟨manifest, bytes⟩ := e
      cases bytes with
      | nil => exact .inl rfl
      | cons b bytes =>
          refine .inr ⟨(b ^^^ 0xFF) :: bytes, ?_⟩
          rw [rot, held]

theorem Shadows.rot (shadows : Shadows c d) (key : ModelKey) (bytes : Bytes) : Shadows (c.rot key bytes) d := by
  rw [VerifiedCache.rot]
  cases held : c.entries[key]? with
  | none => exact shadows
  | some e =>
      obtain ⟨keys, distinct, size⟩ := shadows.kept
      have known : key ∈ c.entries := by
        rw [Std.ExtTreeMap.mem_iff_isSome_getElem?, held]
        rfl
      refine ⟨⟨fun other => ?_, distinct, ?_⟩, shadows.kept_clean, shadows.order, shadows.maxEntries, fun other => ?_⟩
      · rw [Std.ExtTreeMap.mem_insert, keys, Std.LawfulEqCmp.compare_eq_iff_eq]
        exact or_iff_right_of_imp fun same => same ▸ (keys key).mp known
      · rw [Std.ExtTreeMap.size_insert, if_pos (Std.ExtTreeMap.contains_iff_mem.mpr known)]
        exact size
      · rw [lookup_insert]
        split_ifs with same
        · subst same
          rw [← shadows.manifests key, held]
          rfl
        · exact shadows.manifests other

theorem Shadows.makeRoom (shadows : Shadows c d) : Shadows c.makeRoom d.makeRoom := by
  refine ⟨kept_makeRoom shadows.kept, kept_makeRoom shadows.kept_clean, ?_, ?_, fun key => ?_⟩
  · rw [makeRoom_order shadows.kept, makeRoom_order shadows.kept_clean, shadows.order, shadows.maxEntries]
  · rw [makeRoom_maxEntries, makeRoom_maxEntries, shadows.maxEntries]
  · rw [VerifiedCache.makeRoom, VerifiedCache.makeRoom, shadows.kept.size, shadows.kept_clean.size, shadows.order,
      shadows.maxEntries]
    split
    · cases d.order with
      | nil => exact shadows.manifests key
      | cons oldest rest =>
          dsimp only
          rw [lookup_erase, lookup_erase]
          split_ifs
          · rfl
          · exact shadows.manifests key
    · exact shadows.manifests key

theorem Shadows.store (shadows : Shadows c d) (key : ModelKey) (manifest : ModelManifest) (bytes : Bytes) :
    Shadows (c.store key manifest bytes) (d.store key manifest bytes) := by
  refine ⟨kept_store shadows.kept key manifest bytes, kept_store shadows.kept_clean key manifest bytes, ?_, ?_,
    fun other => ?_⟩
  · rw [store_order shadows.kept, store_order shadows.kept_clean, shadows.order, shadows.maxEntries]
  · rw [store_maxEntries, store_maxEntries, shadows.maxEntries]
  · rw [VerifiedCache.store, VerifiedCache.store]
    dsimp only
    rw [lookup_insert, lookup_insert]
    split_ifs
    · rfl
    · exact shadows.makeRoom.manifests other

/-- Whatever becomes of the bytes, the keys and manifests are those of a cache that keeps its bytes. -/
theorem rotted_shadows (maxEntries : ℕ) (acts : List CacheAct) :
    Shadows (rotted shaHex maxEntries acts) (clean shaHex maxEntries acts) := by
  induction acts using List.reverseRecOn with
  | nil => exact ⟨kept_new maxEntries, kept_new maxEntries, rfl, rfl, fun _ => rfl⟩
  | append_singleton acts act ih =>
      rw [rotted, List.foldl_concat, ← rotted, clean, List.filterMap_append]
      cases act with
      | put manifest bytes =>
          have last : [CacheAct.put manifest bytes].filterMap CacheAct.asPut = [(manifest, bytes)] := rfl
          rw [last, after_concat, ← clean]
          cases ok : accepted shaHex (manifest, bytes) with
          | true =>
              rw [put_of_accepted ok, CacheAct.apply, @put_of_accepted _ (manifest, bytes) ok]
              exact ih.store _ manifest bytes
          | false =>
              rw [put_of_rejected ok, CacheAct.apply, @put_of_rejected _ (manifest, bytes) ok]
              exact ih
      | rot key bytes =>
          rw [show [CacheAct.rot key bytes].filterMap CacheAct.asPut = [] from rfl, List.append_nil, ← clean]
          exact ih.rot key bytes
      | tamper id version =>
          rw [show [CacheAct.tamper id version].filterMap CacheAct.asPut = [] from rfl, List.append_nil, ← clean]
          obtain same | ⟨bytes, rots⟩ := tamperForTest_rots (rotted shaHex maxEntries acts) id version
          · rw [CacheAct.apply, same]
            exact ih
          · rw [CacheAct.apply, rots]
            exact ih.rot _ bytes

theorem makeRoom_held {key : ModelKey} {e : ModelManifest × Bytes} (held : c.makeRoom.entries[key]? = some e) :
    c.entries[key]? = some e := by
  rw [makeRoom] at held
  split at held
  · split at held
    · dsimp only at held
      rw [lookup_erase] at held
      split_ifs at held
      exact held
    · exact held
  · exact held

/-- What a cache that keeps its bytes holds under a key is the last artefact accepted for it. -/
theorem held_last {maxEntries : ℕ} {puts : List (ModelManifest × Bytes)} {key : ModelKey}
    {e : ModelManifest × Bytes} (held : (after shaHex maxEntries puts).entries[key]? = some e) :
    lastPut shaHex puts key = some e := by
  induction puts using List.reverseRecOn with
  | nil =>
      rw [after, List.foldl_nil, new, Std.ExtTreeMap.getElem?_empty] at held
      cases held
  | append_singleton puts p ih =>
      rw [after_concat] at held
      rw [lastPut, List.filter_append, List.filter_singleton]
      cases ok : accepted shaHex p with
      | false =>
          rw [put_of_rejected ok] at held
          rw [cond_false, List.append_nil]
          exact ih held
      | true =>
          rw [put_of_accepted ok, store] at held
          dsimp only at held
          rw [lookup_insert] at held
          rw [cond_true, List.filter_append, List.filter_singleton]
          split_ifs at held with same
          · rw [decide_eq_true same, cond_true, List.getLast?_concat]
            exact held
          · rw [decide_eq_false same, cond_false, List.append_nil]
            exact ih (makeRoom_held held)

/-- A cache whose storage changes its bytes gives what one that keeps them gives, which is what was last put, or the
same error; or it finds out that the bytes have changed. Only bytes of the same hash get past it. -/
theorem rot_is_detected (shaHex : Bytes → String) (maxEntries : ℕ) (acts : List CacheAct) (id : String)
    (version : ModelVersion) :
    (rotted shaHex maxEntries acts).order = (clean shaHex maxEntries acts).order ∧
    (∀ err, (clean shaHex maxEntries acts).get shaHex id version = .error err →
      (rotted shaHex maxEntries acts).get shaHex id version = .error err) ∧
    ∀ model, (clean shaHex maxEntries acts).get shaHex id version = .ok model →
      lastPut shaHex (acts.filterMap CacheAct.asPut) (id, version) = some (model.manifest, model.bytes) ∧
      ∃ bytes, (rotted shaHex maxEntries acts).entries[((id, version) : ModelKey)]? = some (model.manifest, bytes) ∧
        (rotted shaHex maxEntries acts).get shaHex id version =
          if shaHex bytes = shaHex model.bytes then .ok ⟨model.manifest, bytes⟩
          else .error (.hashMismatch id version (shaHex model.bytes) (shaHex bytes)) := by
  have shadows : Shadows (rotted shaHex maxEntries acts) (clean shaHex maxEntries acts) :=
    rotted_shadows maxEntries acts
  have manifests := shadows.manifests (id, version)
  have matched : Matched shaHex (clean shaHex maxEntries acts) := matched_after maxEntries _
  refine ⟨shadows.order, fun err refused => ?_, fun model loaded => ?_⟩
  · cases held : (clean shaHex maxEntries acts).entries[((id, version) : ModelKey)]? with
    | none =>
        rw [held, Option.map_none, Option.map_eq_none_iff] at manifests
        rw [get, held] at refused
        rw [get, manifests]
        exact refused
    | some e =>
        rw [get_of_matched matched held] at refused
        cases refused
  · cases held : (clean shaHex maxEntries acts).entries[((id, version) : ModelKey)]? with
    | none =>
        rw [get, held] at loaded
        cases loaded
    | some e =>
        rw [get_of_matched matched held] at loaded
        cases loaded
        rw [held, Option.map_some, Option.map_eq_some_iff] at manifests
        obtain ⟨⟨manifest, bytes⟩, stored, rfl⟩ := manifests
        refine ⟨held_last held, bytes, stored, ?_⟩
        rw [get, stored, matched _ e held]
        simp only [ne_eq, ite_not]

end KaiOs.Ai.VerifiedCache
