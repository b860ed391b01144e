import KaiOs.Pkg.Registry
import Mathlib.Data.List.Induction

/-! What a registry holds after any sequence of publish calls: for each name and version
the first call. -/
namespace KaiOs.Pkg
open Utf8 WriteOnce PkgRegistry

/-- The arguments of a publish call. -/
abbrev Call := PackageManifest × Bytes

section
variable (shaHex : Bytes → String)

def after (calls : List Call) : PkgRegistry :=
  calls.foldl (fun r call => (r.publish shaHex call.1 call.2).2) new

/-- Every call of the sequence returned `Ok`. -/
def AllOk (calls : List Call) : Prop :=
  ∀ begun call, begun ++ [call] <+: calls → ((after shaHex begun).publish shaHex call.1 call.2).1 = .ok ()

def slotOf (call : Call) : String × Version := (call.1.name, call.1.version)

def entryOf (call : Call) : PkgEntry := ⟨call.1, shaHex call.2⟩

theorem after_concat (calls : List Call) (call : Call) :
    after shaHex (calls ++ [call]) = ((after shaHex calls).publish shaHex call.1 call.2).2 := by
  rw [after, List.foldl_append]
  rfl

end

section
variable {shaHex : Bytes → String} {r : PkgRegistry} {manifest : PackageManifest} {content : Bytes}

theorem publish_eq (shaHex : Bytes → String) (r : PkgRegistry) (manifest : PackageManifest) (content : Bytes) :
    r.publish shaHex manifest content = (match r.entryAt manifest.name manifest.version with
      | none => .ok ()
      | some e =>
          if e.integrity = shaHex content then .ok ()
          else .error (.duplicateNameVersion manifest.name manifest.version),
      ⟨Shelves.putNew r.packages manifest.name manifest.version ⟨manifest, shaHex content⟩⟩) := by
  unfold Shelves.putNew
  have slot := Shelves.shelf_entry r.packages manifest.name manifest.version
  have entry : r.entryAt manifest.name manifest.version =
    Shelves.entry r.packages manifest.name manifest.version := rfl
  rw [entry]
  cases taken : Shelves.entry r.packages manifest.name manifest.version with
  | none =>
      rw [taken, Shelves.shelf] at slot
      simp only [publish, slot, Shelves.put, Shelves.shelf, Option.isSome_none, Bool.false_eq_true, if_false]
  | some e =>
      have back := Shelves.insert_shelf taken
      rw [taken, Shelves.shelf] at slot
      rw [Shelves.shelf] at back
      simp only [publish, slot, back, ne_eq, ite_not, Option.isSome_some, if_true]
      split_ifs <;> rfl

theorem publish_ok_iff : (r.publish shaHex manifest content).1 = .ok () ↔
    ∀ e, r.entryAt manifest.name manifest.version = some e → e.integrity = shaHex content := by
  rw [publish_eq]
  cases taken : r.entryAt manifest.name manifest.version with
  | none => exact iff_of_true rfl nofun
  | some e =>
      dsimp only
      by_cases same : e.integrity = shaHex content
      · rw [if_pos same]
        exact iff_of_true rfl fun e' h => Option.some.inj h ▸ same
      · rw [if_neg same]
        exact iff_of_false nofun fun all => same (all e rfl)

theorem publish_error {err : PkgError} {r' : PkgRegistry}
    (h : r.publish shaHex manifest content = (.error err, r')) : r' = r := by
  rw [publish_eq] at h
  obtain ⟨refused, rfl⟩ := Prod.mk_inj.mp h
  cases taken : r.entryAt manifest.name manifest.version with
  | none =>
      rw [taken] at refused
      cases refused
  | some e =>
      have held : Shelves.entry r.packages manifest.name manifest.version = some e := taken
      rw [Shelves.putNew, held, Option.isSome_some, if_pos rfl]

end

section
variable (shaHex : Bytes → String)

theorem packages_after (calls : List Call) :
    (after shaHex calls).packages = Shelves.collect slotOf (entryOf shaHex) calls := by
  induction calls using List.reverseRecOn with
  | nil => rfl
  | append_singleton calls call ih =>
      rw [after_concat, publish_eq, Shelves.collect_concat, ← ih]
      rfl

/-- The registry is a store in which the first write stays. -/
theorem entryAt_after (calls : List Call) (name : String) (version : Version) :
    (after shaHex calls).entryAt name version = first slotOf (entryOf shaHex) calls (name, version) := by
  rw [← Shelves.entry_collect, ← packages_after]
  rfl

theorem after_perm {calls calls' : List Call} (consistent : Consistent slotOf (entryOf shaHex) calls)
    (perm : calls.Perm calls') : after shaHex calls' = after shaHex calls := by
  have packages : (after shaHex calls').packages = (after shaHex calls).packages := by
    rw [packages_after, packages_after, Shelves.collect_perm consistent perm]
  exact congrArg PkgRegistry.mk packages

theorem entryAt_stays {calls : List Call} {name : String} {version : Version} {e : PkgEntry}
    (h : (after shaHex calls).entryAt name version = some e) (more : List Call) :
    (after shaHex (calls ++ more)).entryAt name version = some e := by
  rw [entryAt_after] at h ⊢
  exact first_stays h more

theorem allOk_iff_accepted (calls : List Call) : AllOk shaHex calls ↔
    Accepted slotOf (entryOf shaHex) PkgEntry.integrity calls := by
  unfold AllOk Accepted
  simp only [publish_ok_iff, entryAt_after]
  rfl

theorem allOk_iff (calls : List Call) : AllOk shaHex calls ↔
    ∀ c ∈ calls, ∀ d ∈ calls, slotOf c = slotOf d → shaHex c.2 = shaHex d.2 := by
  rw [allOk_iff_accepted, accepted_iff]
  rfl

theorem consistent_iff {calls : List Call} (ok : AllOk shaHex calls) :
    Consistent slotOf (entryOf shaHex) calls ↔
      ∀ c ∈ calls, ∀ d ∈ calls, slotOf c = slotOf d → c.1.deps = d.1.deps := by
  constructor
  · exact fun consistent c hc d hd same => congrArg (·.manifest.deps) (consistent c hc d hd same)
  · intro agree c hc d hd same
    have content := (allOk_iff shaHex calls).mp ok c hc d hd same
    have deps := agree c hc d hd same
    obtain ⟨⟨name, version, _⟩, _⟩ := c
    obtain ⟨⟨name', version', _⟩, _⟩ := d
    cases same
    cases deps
    exact congrArg (PkgEntry.mk _) content

/-- The order of accepted calls is irrelevant unless one version is published twice with
different dependencies. -/
theorem publish_order_iff (calls : List Call) (ok : AllOk shaHex calls) :
    (∀ calls', calls.Perm calls' → AllOk shaHex calls' →
      after shaHex calls' = after shaHex calls ∧
        ∀ root, (after shaHex calls').resolve root = (after shaHex calls).resolve root) ↔
      ∀ c ∈ calls, ∀ d ∈ calls, slotOf c = slotOf d → c.1.deps = d.1.deps := by
  rw [← consistent_iff shaHex ok]
  constructor
  · intro same
    apply consistent_of_perm
    intro calls' perm
    have ok' : AllOk shaHex calls' := by
      rw [allOk_iff_accepted] at ok ⊢
      exact ok.perm perm
    funext ⟨name, version⟩
    rw [← entryAt_after, ← entryAt_after, (same calls' perm ok').1]
  · intro consistent calls' perm _
    have registries := after_perm shaHex consistent perm
    exact ⟨registries, fun root => by rw [registries]⟩

end

/-- A hash that loses nothing. -/
def latin1 (bs : Bytes) : String := String.ofList (bs.map fun b => Char.ofNat b.toNat)

theorem latin1_injective : Function.Injective latin1 := by
  have bytes : Function.Injective fun b : UInt8 => Char.ofNat b.toNat := by
    intro b c h
    have code (n : UInt8) : (Char.ofNat n.toNat).toNat = n.toNat := by
      rw [Char.ofNat, dif_pos (Or.inl ((UInt8.toNat_lt n).trans (by decide)))]
      rfl
    exact UInt8.toNat_inj.mp ((code b).symm.trans ((congrArg Char.toNat h).trans (code c)))
  exact fun bs cs same => List.map_injective_iff.mpr bytes (String.ofList_injective same)

theorem publish_order_two_versions :
    after latin1 [(⟨"app", ⟨1, 1, 0⟩, [⟨"net", .caret ⟨1, 0, 0⟩⟩]⟩, [7]), (⟨"app", ⟨1, 0, 0⟩, []⟩, [5])] =
      after latin1 [(⟨"app", ⟨1, 0, 0⟩, []⟩, [5]), (⟨"app", ⟨1, 1, 0⟩, [⟨"net", .caret ⟨1, 0, 0⟩⟩]⟩, [7])] := by
  have ok (calls : List Call) (distinct : ∀ c ∈ calls, ∀ d ∈ calls, slotOf c = slotOf d → c = d) :
      AllOk latin1 calls :=
    (allOk_iff latin1 calls).mpr fun c hc d hd same => by rw [distinct c hc d hd same]
  refine ((publish_order_iff latin1 _ (ok _ ?_)).mpr ?_ _ (.swap _ _ _) (ok _ ?_)).1 <;> decide

/-- Two publishes of one version with one content and different dependencies: the later one
is answered with `Ok` and ignored. -/
theorem publish_order_matters :
    ∃ shaHex : Bytes → String, Function.Injective shaHex ∧
      [((⟨"app", ⟨1, 0, 0⟩, []⟩, []) : Call),
        (⟨"app", ⟨1, 0, 0⟩, [⟨"net", .caret ⟨1, 0, 0⟩⟩]⟩, [])].Perm
          [(⟨"app", ⟨1, 0, 0⟩, [⟨"net", .caret ⟨1, 0, 0⟩⟩]⟩, []), (⟨"app", ⟨1, 0, 0⟩, []⟩, [])] ∧
      AllOk shaHex [(⟨"app", ⟨1, 0, 0⟩, []⟩, []), (⟨"app", ⟨1, 0, 0⟩, [⟨"net", .caret ⟨1, 0, 0⟩⟩]⟩, [])] ∧
      AllOk shaHex [(⟨"app", ⟨1, 0, 0⟩, [⟨"net", .caret ⟨1, 0, 0⟩⟩]⟩, []), (⟨"app", ⟨1, 0, 0⟩, []⟩, [])] ∧
      (after shaHex [(⟨"app", ⟨1, 0, 0⟩, []⟩, []),
        (⟨"app", ⟨1, 0, 0⟩, [⟨"net", .caret ⟨1, 0, 0⟩⟩]⟩, [])]).resolve "app" =
          some (.ok ⟨[⟨"app", ⟨1, 0, 0⟩, ""⟩]⟩) ∧
      (after shaHex [(⟨"app", ⟨1, 0, 0⟩, [⟨"net", .caret ⟨1, 0, 0⟩⟩]⟩, []),
        (⟨"app", ⟨1, 0, 0⟩, []⟩, [])]).resolve "app" =
          some (.error (.missingDependency "net" (.caret ⟨1, 0, 0⟩))) := by
  refine ⟨latin1, latin1_injective, .swap _ _ _, ?_, ?_, by decide +kernel, by decide +kernel⟩
  · rw [allOk_iff]
    decide
  · rw [allOk_iff]
    decide

end KaiOs.Pkg
