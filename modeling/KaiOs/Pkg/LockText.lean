import KaiOs.Lib.Sha256
import KaiOs.Pkg.Lockfile
import KaiOs.Pkg.VersionText

/-! `Lockfile::to_text`: what the text of a lockfile tells of it. -/
namespace KaiOs.Pkg
open Fields Utf8 WriteOnce PkgRegistry

def LockEntry.line (e : LockEntry) : String := e.name ++ " " ++ e.version.text ++ " " ++ e.integrity

namespace Lockfile

def header (root : String) : String := "# kai-os lockfile (root: " ++ root ++ ")"

def toText (lock : Lockfile) : String :=
  lock.entries.foldl (fun out e => out ++ (e.line ++ "\n")) (header lock.root ++ "\n")

/-- The header and the entries, each of them one line unless a name breaks it. -/
def paragraphs (lock : Lockfile) : List String := header lock.root :: lock.entries.map LockEntry.line

/-- The same lines make up both lockfiles, but other numbers of them the header or some entry. -/
def Regrouped (lock lock' : Lockfile) : Prop :=
  lock.paragraphs.flatMap (split '\n') = lock'.paragraphs.flatMap (split '\n') ∧
    lock.paragraphs.map (fun p => (split '\n' p).length) ≠ lock'.paragraphs.map fun p => (split '\n' p).length

theorem fromPlan_of_sorted (root : String) {plan : ResolutionPlan}
    (sorted : plan.packages.Pairwise fun p q => (compare p.name q.name).isLE = true) :
    fromPlan root plan = ⟨root, plan.packages.map fun p => ⟨p.name, p.version, p.integrity⟩⟩ := by
  unfold fromPlan
  rw [List.mergeSort_of_pairwise (List.pairwise_map.mpr sorted)]

theorem toText_eq (lock : Lockfile) : lock.toText = close "\n" lock.paragraphs := by
  have pushed (out : String) (es : List LockEntry) :
      es.foldl (fun out e => out ++ (e.line ++ "\n")) out = out ++ close "\n" (es.map LockEntry.line) := by
    induction es generalizing out with
    | nil => exact String.append_empty.symm
    | cons e es ih => rw [List.foldl_cons, ih, List.map_cons, close, String.append_assoc]
  unfold toText
  rw [pushed, paragraphs, close]

theorem header_inj {root root' : String} (same : header root = header root') : root = root' := by
  unfold header at same
  rw [String.append_assoc, String.append_assoc, String.append_right_inj, String.append_left_inj] at same
  exact same

theorem version_text_injective : Function.Injective Version.text := by
  intro v w same
  have back := fromStr_text v
  rw [same, fromStr_text w] at back
  exact (Except.ok.inj back).symm

theorem free_version_text {c : Char} (other : c.isDigit = false) (dot : c ≠ '.') (v : Version) :
    Free c v.text := by
  simp only [Free, Version.text, String.toList_append, List.mem_append]
  rintro ((digit | point) | (digit | point) | digit)
  · exact free_decimal other _ digit
  · exact dot (List.mem_singleton.mp point)
  · exact free_decimal other _ digit
  · exact dot (List.mem_singleton.mp point)
  · exact free_decimal other _ digit

/-- A line is read from its end: neither the hash nor the version contains a space. -/
theorem line_inj {e e' : LockEntry} (hex : Free ' ' e.integrity) (hex' : Free ' ' e'.integrity)
    (same : e.line = e'.line) : e = e' := by
  obtain ⟨front, integrity⟩ := last_field rfl hex hex' same
  obtain ⟨name, version⟩ := last_field rfl (free_version_text rfl (by decide) e.version)
    (free_version_text rfl (by decide) e'.version) front
  obtain ⟨_, _, _⟩ := e
  obtain ⟨_, _, _⟩ := e'
  cases name
  cases version_text_injective version
  cases integrity
  rfl

theorem lines_inj {es es' : List LockEntry} (hex : ∀ e ∈ es, Free ' ' e.integrity)
    (hex' : ∀ e ∈ es', Free ' ' e.integrity) (same : es.map LockEntry.line = es'.map LockEntry.line) :
    es = es' := by
  induction es generalizing es' with
  | nil => exact (List.map_eq_nil_iff.mp same.symm).symm
  | cons e es ih =>
      cases es' with
      | nil => cases same
      | cons e' es' =>
          obtain ⟨line, rest⟩ := List.cons.inj same
          obtain ⟨here, later⟩ := List.forall_mem_cons.mp hex
          obtain ⟨here', later'⟩ := List.forall_mem_cons.mp hex'
          rw [line_inj here here' line, ih later later' rest]

theorem newline_toList : "\n".toList = ['\n'] := rfl

/-- Two texts are told apart as far as the lockfiles are, unless the same lines are grouped differently. -/
theorem toText_inj_iff {lock lock' : Lockfile} (hex : ∀ e ∈ lock.entries, Free ' ' e.integrity)
    (hex' : ∀ e ∈ lock'.entries, Free ' ' e.integrity) :
    (lock.toText = lock'.toText → lock.root = lock'.root ∧ lock.entries = lock'.entries) ↔
      ¬Regrouped lock lock' := by
  have paragraphs : lock.root = lock'.root ∧ lock.entries = lock'.entries ↔
      lock.paragraphs = lock'.paragraphs := by
    constructor
    · rintro ⟨root, entries⟩
      rw [Lockfile.paragraphs, root, entries]
      rfl
    · intro same
      obtain ⟨headers, lines⟩ := List.cons.inj same
      exact ⟨header_inj headers, lines_inj hex hex' lines⟩
  rw [paragraphs, toText_eq, toText_eq, close_inj_iff newline_toList, Regrouped, not_and, not_ne_iff]

theorem toText_inj_of_plain {lock lock' : Lockfile} (hex : ∀ e ∈ lock.entries, Free ' ' e.integrity)
    (hex' : ∀ e ∈ lock'.entries, Free ' ' e.integrity) (plain : ∀ p ∈ lock.paragraphs, Free '\n' p)
    (plain' : ∀ p ∈ lock'.paragraphs, Free '\n' p) (same : lock.toText = lock'.toText) :
    lock.root = lock'.root ∧ lock.entries = lock'.entries := by
  refine (toText_inj_iff hex hex').mpr (fun regrouped => regrouped.2 ?_) same
  rw [toText_eq, toText_eq] at same
  rw [close_inj_of_free newline_toList plain plain' same]

end Lockfile

/-- A lock names hashes of contents. -/
theorem lock_integrity {shaHex : Bytes → String} {calls : List Call} {root : String} {plan : ResolutionPlan}
    (resolved : (after shaHex calls).resolve root = some (.ok plan)) {e : LockEntry}
    (member : e ∈ (Lockfile.fromPlan root plan).entries) : ∃ content, e.integrity = shaHex content := by
  have valid := lock_verifies resolved []
  rw [List.append_nil, Lockfile.verify_iff] at valid
  obtain ⟨entry, found, integrity⟩ := Option.map_eq_some_iff.mp (valid e member)
  rw [entryAt_after] at found
  obtain ⟨call, -, -, rfl⟩ := mem_of_first found
  exact ⟨call.2, integrity.symm⟩

/-- The text of a lock identifies it among the locks of all registries, unless another one groups its lines
differently. -/
theorem lock_text_identifies_iff {shaHex : Bytes → String} (hex : ∀ content, Free ' ' (shaHex content))
    {calls calls' : List Call} {root root' : String} {plan plan' : ResolutionPlan}
    (resolved : (after shaHex calls).resolve root = some (.ok plan))
    (resolved' : (after shaHex calls').resolve root' = some (.ok plan')) :
    ((Lockfile.fromPlan root plan).toText = (Lockfile.fromPlan root' plan').toText →
      (Lockfile.fromPlan root plan).root = (Lockfile.fromPlan root' plan').root ∧
        (Lockfile.fromPlan root plan).entries = (Lockfile.fromPlan root' plan').entries) ↔
      ¬Lockfile.Regrouped (Lockfile.fromPlan root plan) (Lockfile.fromPlan root' plan') := by
  apply Lockfile.toText_inj_iff
  · intro e member
    obtain ⟨content, integrity⟩ := lock_integrity resolved member
    rw [integrity]
    exact hex content
  · intro e member
    obtain ⟨content, integrity⟩ := lock_integrity resolved' member
    rw [integrity]
    exact hex content

section Example

/-- `sha_hex` of no content. -/
def noContent : String := "e3b0c44298fc1c149afbf4c8996fb92427ae41e4649b934ca495991b7852b855"

theorem hexBytes_nil : Sha256.hexBytes [] = noContent := by decide +kernel

/-- Only the hashes of the published contents matter. -/
theorem after_congr {shaHex shaHex' : Bytes → String} {calls : List Call}
    (same : ∀ call ∈ calls, shaHex call.2 = shaHex' call.2) : after shaHex calls = after shaHex' calls := by
  induction calls using List.reverseRecOn with
  | nil => rw [after, after, List.foldl_nil, List.foldl_nil]
  | append_singleton calls call ih =>
      have earlier := ih fun c member => same c (List.mem_append_left _ member)
      have last := same call (List.mem_append_right _ (List.mem_singleton_self call))
      rw [after_concat, after_concat, earlier]
      simp only [publish, last]

theorem after_of_no_content {calls : List Call} (empty : ∀ call ∈ calls, call.2 = []) :
    after Sha256.hexBytes calls = after (fun _ => noContent) calls := by
  apply after_congr
  intro call member
  rw [empty call member, hexBytes_nil]

def twoDeps : List Call :=
  [(⟨"x", ⟨1, 0, 0⟩, []⟩, []), (⟨"y", ⟨1, 0, 0⟩, []⟩, []),
    (⟨"app", ⟨1, 0, 0⟩, [⟨"x", .caret ⟨1, 0, 0⟩⟩, ⟨"y", .caret ⟨1, 0, 0⟩⟩]⟩, [])]

/-- One package whose name is made of the line of `x` and the name of `y`. -/
def brokenName : String := "x 1.0.0 " ++ noContent ++ "\ny"

def oneDep : List Call :=
  [(⟨brokenName, ⟨1, 0, 0⟩, []⟩, []), (⟨"app", ⟨1, 0, 0⟩, [⟨brokenName, .caret ⟨1, 0, 0⟩⟩]⟩, [])]

def twoDepsPlan : ResolutionPlan :=
  ⟨[⟨"app", ⟨1, 0, 0⟩, noContent⟩, ⟨"x", ⟨1, 0, 0⟩, noContent⟩, ⟨"y", ⟨1, 0, 0⟩, noContent⟩]⟩

def oneDepPlan : ResolutionPlan := ⟨[⟨"app", ⟨1, 0, 0⟩, noContent⟩, ⟨brokenName, ⟨1, 0, 0⟩, noContent⟩]⟩

theorem twoDeps_resolved : (after Sha256.hexBytes twoDeps).resolve "app" = some (.ok twoDepsPlan) := by
  rw [after_of_no_content (by decide)]
  decide +kernel

theorem x_resolved : (after Sha256.hexBytes twoDeps).resolve "x" = some (.ok ⟨[⟨"x", ⟨1, 0, 0⟩, noContent⟩]⟩) := by
  rw [after_of_no_content (by decide)]
  decide +kernel

theorem oneDep_resolved : (after Sha256.hexBytes oneDep).resolve "app" = some (.ok oneDepPlan) := by
  rw [after_of_no_content (by decide)]
  decide +kernel

theorem twoDeps_lock : Lockfile.fromPlan "app" twoDepsPlan =
    ⟨"app", [⟨"app", ⟨1, 0, 0⟩, noContent⟩, ⟨"x", ⟨1, 0, 0⟩, noContent⟩, ⟨"y", ⟨1, 0, 0⟩, noContent⟩]⟩ :=
  Lockfile.fromPlan_of_sorted "app" (by decide +kernel)

theorem oneDep_lock : Lockfile.fromPlan "app" oneDepPlan =
    ⟨"app", [⟨"app", ⟨1, 0, 0⟩, noContent⟩, ⟨brokenName, ⟨1, 0, 0⟩, noContent⟩]⟩ :=
  Lockfile.fromPlan_of_sorted "app" (by decide +kernel)

theorem x_lock : Lockfile.fromPlan "x" ⟨[⟨"x", ⟨1, 0, 0⟩, noContent⟩]⟩ = ⟨"x", [⟨"x", ⟨1, 0, 0⟩, noContent⟩]⟩ :=
  Lockfile.fromPlan_of_sorted "x" (List.pairwise_singleton _ _)

theorem lock_texts_of_roots : (Lockfile.fromPlan "app" twoDepsPlan).toText ≠
    (Lockfile.fromPlan "x" ⟨[⟨"x", ⟨1, 0, 0⟩, noContent⟩]⟩).toText := by
  intro same
  have apart : ¬Lockfile.Regrouped (Lockfile.fromPlan "app" twoDepsPlan)
      (Lockfile.fromPlan "x" ⟨[⟨"x", ⟨1, 0, 0⟩, noContent⟩]⟩) := by
    rw [twoDeps_lock, x_lock]
    unfold Lockfile.Regrouped
    decide +kernel
  have whole := (lock_text_identifies_iff (Sha256.free_hexBytes (by decide)) twoDeps_resolved x_resolved).mpr
    apart same
  exact absurd whole.1 (by decide)

/-- A name with a line break gives the text of two packages. -/
theorem lock_text_of_broken_name :
    (after Sha256.hexBytes twoDeps).resolve "app" = some (.ok twoDepsPlan) ∧
      (after Sha256.hexBytes oneDep).resolve "app" = some (.ok oneDepPlan) ∧
      (Lockfile.fromPlan "app" twoDepsPlan).toText = (Lockfile.fromPlan "app" oneDepPlan).toText ∧
      (Lockfile.fromPlan "app" twoDepsPlan).entries ≠ (Lockfile.fromPlan "app" oneDepPlan).entries := by
  refine ⟨twoDeps_resolved, oneDep_resolved, ?_, ?_⟩
  · rw [twoDeps_lock, oneDep_lock]
    decide +kernel
  · rw [twoDeps_lock, oneDep_lock]
    simp

end Example

end KaiOs.Pkg
