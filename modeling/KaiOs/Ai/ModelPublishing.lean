import KaiOs.Ai.ModelRegistry
import KaiOs.Lib.Shelves
import KaiOs.Lib.WriteOnce
import Mathlib.Data.List.Induction

/-! What a model registry answers behind any sequence of publish calls: the first manifest of each
version stays. -/
namespace KaiOs.Ai
open WriteOnce

def ModelManifest.key (m : ModelManifest) : ModelKey := (m.id, m.version)

namespace ModelRegistry

def after (manifests : List ModelManifest) : ModelRegistry := manifests.foldl (fun r m => (r.publish m).2) new

/-- Every call of the sequence returned `Ok`. -/
def AllOk (manifests : List ModelManifest) : Prop :=
  ∀ begun m, begun ++ [m] <+: manifests → ((after begun).publish m).1 = .ok ()

theorem after_concat (manifests : List ModelManifest) (m : ModelManifest) :
    after (manifests ++ [m]) = ((after manifests).publish m).2 := by
  unfold after
  rw [List.foldl_append]
  rfl

section
variable {r : ModelRegistry} {m : ModelManifest}

theorem publish_eq (r : ModelRegistry) (m : ModelManifest) :
    r.publish m = (match Shelves.entry r.models m.id m.version with
      | none => .ok ()
      | some existing =>
          if existing.sha256 = m.sha256 then .ok () else .error (.duplicateIdVersion m.id m.version),
      ⟨Shelves.putNew r.models m.id m.version m⟩) := by
  unfold Shelves.putNew
  have shelf := Shelves.shelf_entry r.models m.id m.version
  cases taken : Shelves.entry r.models m.id m.version with
  | none =>
      rw [taken, Shelves.shelf] at shelf
      simp only [publish, shelf, Shelves.put, Shelves.shelf, Option.isSome_none, Bool.false_eq_true, if_false]
  | some existing =>
      have back := Shelves.insert_shelf taken
      rw [taken, Shelves.shelf] at shelf
      rw [Shelves.shelf] at back
      simp only [publish, shelf, back, Option.isSome_some, if_true]
      split_ifs <;> rfl

theorem publish_ok_iff : (r.publish m).1 = .ok () ↔
    ∀ existing, Shelves.entry r.models m.id m.version = some existing → existing.sha256 = m.sha256 := by
  rw [publish_eq]
  cases taken : Shelves.entry r.models m.id m.version with
  | none => exact iff_of_true rfl fun existing h => by cases h
  | some held =>
      dsimp only
      by_cases same : held.sha256 = m.sha256
      · rw [if_pos same]
        exact iff_of_true rfl fun existing h => Option.some.inj h ▸ same
      · rw [if_neg same]
        exact iff_of_false (fun h => by cases h) fun all => same (all held rfl)

theorem get_eq (r : ModelRegistry) (id : String) (version : ModelVersion) :
    r.get id version = match Shelves.entry r.models id version with
      | none => .error (.unknownModel id)
      | some m => .ok m := rfl

theorem get_inj {r r' : ModelRegistry} {id : String} {version : ModelVersion}
    (same : r.get id version = r'.get id version) :
    Shelves.entry r.models id version = Shelves.entry r'.models id version := by
  rw [get_eq, get_eq] at same
  cases held : Shelves.entry r.models id version with
  | none =>
      cases held' : Shelves.entry r'.models id version with
      | none => rfl
      | some m' =>
          rw [held, held'] at same
          cases same
  | some m =>
      cases held' : Shelves.entry r'.models id version with
      | none =>
          rw [held, held'] at same
          cases same
      | some m' =>
          rw [held, held'] at same
          exact congrArg some (Except.ok.inj same)

/-- A match is the manifest of the highest version that meets the requirement. -/
theorem bestMatch_highest {id : String} {req : VersionReq} {best : ModelManifest}
    (h : r.bestMatch id req = .ok best) :
    ∃ top, Shelves.entry r.models id top = some best ∧ req.matches best.version = true ∧
      ∀ v m, Shelves.entry r.models id v = some m → req.matches m.version = true → v ≤ top := by
  unfold bestMatch at h
  cases found : r.models[id]? with
  | none =>
      rw [found] at h
      cases h
  | some versions =>
      simp only [found] at h
      split at h
      · cases h
      · next m first =>
          cases h
          obtain ⟨top, held, hit, highest⟩ := Shelves.highest_of_find? first
          simp only [Shelves.entry, found, Option.bind_some]
          exact ⟨top, held, hit, highest⟩

theorem bestMatch_ok {id : String} {req : VersionReq} {version : ModelVersion}
    (held : Shelves.entry r.models id version = some m) (hit : req.matches m.version = true) :
    ∃ best, r.bestMatch id req = .ok best := by
  obtain ⟨versions, found, inside⟩ := Option.bind_eq_some_iff.mp held
  obtain ⟨best, first⟩ := Option.isSome_iff_exists.mp
    (Shelves.find?_isSome (p := fun m => req.matches m.version) inside hit)
  refine ⟨best, ?_⟩
  unfold bestMatch
  simp only [found, first]

end

theorem models_after (manifests : List ModelManifest) :
    (after manifests).models = Shelves.collect ModelManifest.key (fun m => m) manifests := by
  induction manifests using List.reverseRecOn with
  | nil => rfl
  | append_singleton manifests m ih =>
      rw [after_concat, publish_eq, Shelves.collect_concat, ← ih]
      rfl

/-- The registry is a store in which the first write stays. -/
theorem entry_after (manifests : List ModelManifest) (id : String) (version : ModelVersion) :
    Shelves.entry (after manifests).models id version =
      first ModelManifest.key (fun m => m) manifests (id, version) := by
  rw [models_after, Shelves.entry_collect]

theorem after_perm {manifests manifests' : List ModelManifest}
    (consistent : Consistent ModelManifest.key (fun m => m) manifests) (perm : manifests.Perm manifests') :
    after manifests' = after manifests := by
  have models : (after manifests').models = (after manifests).models := by
    rw [models_after, models_after, Shelves.collect_perm consistent perm]
  exact congrArg ModelRegistry.mk models

theorem allOk_iff_accepted (manifests : List ModelManifest) : AllOk manifests ↔
    Accepted ModelManifest.key (fun m => m) ModelManifest.sha256 manifests := by
  unfold AllOk Accepted
  simp only [publish_ok_iff, entry_after]
  rfl

theorem consistent_iff {manifests : List ModelManifest} (ok : AllOk manifests) :
    Consistent ModelManifest.key (fun m => m) manifests ↔
      ∀ m ∈ manifests, ∀ n ∈ manifests, m.key = n.key → m.owner = n.owner ∧ m.sizeBytes = n.sizeBytes := by
  rw [allOk_iff_accepted, accepted_iff] at ok
  constructor
  · intro consistent m hm n hn same
    have whole : m = n := consistent m hm n hn same
    exact ⟨congrArg _ whole, congrArg _ whole⟩
  · intro agree m hm n hn same
    have content := ok m hm n hn same
    obtain ⟨owner, size⟩ := agree m hm n hn same
    cases m
    cases n
    cases same
    cases content
    cases owner
    cases size
    rfl

theorem bestMatch_after {manifests : List ModelManifest} {m : ModelManifest} (member : m ∈ manifests)
    {req : VersionReq} (hit : req.matches m.version = true) :
    ∃ best ∈ manifests, (after manifests).bestMatch m.id req = .ok best ∧ best.id = m.id ∧
      req.matches best.version = true ∧
        ∀ n ∈ manifests, n.id = m.id → req.matches n.version = true → n.version ≤ best.version := by
  have held (n : ModelManifest) (inside : n ∈ manifests) : ∃ n', n'.key = n.key ∧
      Shelves.entry (after manifests).models n.id n.version = some n' := by
    obtain ⟨n', found⟩ := Option.isSome_iff_exists.mp (first_isSome ModelManifest.key (fun m => m) inside)
    obtain ⟨a, -, filed, rfl⟩ := mem_of_first found
    exact ⟨a, filed, (entry_after manifests n.id n.version).trans found⟩
  obtain ⟨m', filed, kept⟩ := held m member
  have hit' : req.matches m'.version = true := by
    rwa [show m'.version = m.version from congrArg Prod.snd filed]
  obtain ⟨best, matched⟩ := bestMatch_ok kept hit'
  obtain ⟨top, found, meets, highest⟩ := bestMatch_highest matched
  rw [entry_after] at found
  obtain ⟨b, inside, filedBest, rfl⟩ := mem_of_first found
  refine ⟨b, inside, matched, congrArg Prod.fst filedBest, meets, ?_⟩
  intro n hn named hits
  obtain ⟨n', filedN, keptN⟩ := held n hn
  rw [named] at keptN
  have version : n'.version = n.version := congrArg Prod.snd filedN
  have below := highest n.version n' keptN (by rwa [version])
  rwa [← show b.version = top from congrArg Prod.snd filedBest] at below

/-- The order of accepted calls is irrelevant exactly if no version is published twice with different
owners or sizes; a match is the highest version in any case. -/
theorem publish_order_irrelevant_iff (manifests : List ModelManifest) (ok : AllOk manifests) :
    ((∀ manifests', manifests.Perm manifests' → AllOk manifests' →
        (∀ id req, (after manifests').bestMatch id req = (after manifests).bestMatch id req) ∧
        ∀ id version, (after manifests').get id version = (after manifests).get id version) ∧
      ∀ m ∈ manifests, ∀ req : VersionReq, req.matches m.version = true →
        ∃ best ∈ manifests, (after manifests).bestMatch m.id req = .ok best ∧ best.id = m.id ∧
          req.matches best.version = true ∧
            ∀ n ∈ manifests, n.id = m.id → req.matches n.version = true → n.version ≤ best.version) ↔
      ∀ m ∈ manifests, ∀ n ∈ manifests, m.key = n.key → m.owner = n.owner ∧ m.sizeBytes = n.sizeBytes := by
  rw [← consistent_iff ok]
  constructor
  · intro ⟨same, _⟩
    apply consistent_of_perm
    intro manifests' perm
    have ok' : AllOk manifests' := by
      rw [allOk_iff_accepted] at ok ⊢
      exact ok.perm perm
    funext ⟨id, version⟩
    rw [← entry_after, ← entry_after]
    exact get_inj ((same manifests' perm ok').2 id version)
  · intro consistent
    refine ⟨fun manifests' perm _ => ?_, fun m member req hit => bestMatch_after member hit⟩
    rw [after_perm consistent perm]
    exact ⟨fun _ _ => rfl, fun _ _ => rfl⟩

theorem publish_order_vision :
    (after [⟨"vision", ⟨2, 0, 0⟩, "lab", 4, "b"⟩, ⟨"vision", ⟨1, 0, 0⟩, "lab", 3, "a"⟩]).bestMatch "vision"
        (.caret ⟨1, 0, 0⟩) =
      (after [⟨"vision", ⟨1, 0, 0⟩, "lab", 3, "a"⟩, ⟨"vision", ⟨2, 0, 0⟩, "lab", 4, "b"⟩]).bestMatch "vision"
        (.caret ⟨1, 0, 0⟩) := by
  have ok (manifests : List ModelManifest) (distinct : ∀ m ∈ manifests, ∀ n ∈ manifests, m.key = n.key → m = n) :
      AllOk manifests := by
    rw [allOk_iff_accepted, accepted_iff]
    exact fun m hm n hn same => by rw [distinct m hm n hn same]
  refine ((publish_order_irrelevant_iff _ (ok _ ?_)).mpr ?_).1 _ (.swap _ _ _) (ok _ ?_) |>.1 _ _ <;> decide

/-- Two publishes of one version with one hash and different owners: the later one is answered with `Ok` and
ignored. -/
theorem publish_order_names_owner :
    [(⟨"vision", ⟨1, 0, 0⟩, "lab", 3, "a"⟩ : ModelManifest), ⟨"vision", ⟨1, 0, 0⟩, "guest", 3, "a"⟩].Perm
        [⟨"vision", ⟨1, 0, 0⟩, "guest", 3, "a"⟩, ⟨"vision", ⟨1, 0, 0⟩, "lab", 3, "a"⟩] ∧
      AllOk [⟨"vision", ⟨1, 0, 0⟩, "lab", 3, "a"⟩, ⟨"vision", ⟨1, 0, 0⟩, "guest", 3, "a"⟩] ∧
      AllOk [⟨"vision", ⟨1, 0, 0⟩, "guest", 3, "a"⟩, ⟨"vision", ⟨1, 0, 0⟩, "lab", 3, "a"⟩] ∧
      (after [⟨"vision", ⟨1, 0, 0⟩, "lab", 3, "a"⟩, ⟨"vision", ⟨1, 0, 0⟩, "guest", 3, "a"⟩]).get "vision" ⟨1, 0, 0⟩ =
        .ok ⟨"vision", ⟨1, 0, 0⟩, "lab", 3, "a"⟩ ∧
      (after [⟨"vision", ⟨1, 0, 0⟩, "guest", 3, "a"⟩, ⟨"vision", ⟨1, 0, 0⟩, "lab", 3, "a"⟩]).get "vision" ⟨1, 0, 0⟩ =
        .ok ⟨"vision", ⟨1, 0, 0⟩, "guest", 3, "a"⟩ := by
  refine ⟨.swap _ _ _, ?_, ?_, ?_, ?_⟩
  · rw [allOk_iff_accepted, accepted_iff]
    decide
  · rw [allOk_iff_accepted, accepted_iff]
    decide
  · rw [get_eq, entry_after]
    rfl
  · rw [get_eq, entry_after]
    rfl

end ModelRegistry
end KaiOs.Ai
