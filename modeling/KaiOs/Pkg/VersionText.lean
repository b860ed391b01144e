import KaiOs.Lib.Decimal
import KaiOs.Lib.Fields
import KaiOs.Pkg.Version
import Mathlib.Algebra.Group.Nat.Defs

/-! The texts of `pkg/src/version.rs`: what is accepted as a version or a requirement, and what is printed. -/
namespace KaiOs.Pkg
open Fields

structure ParseError where
  text : String
  deriving DecidableEq

/-- A number without the plus sign that may stand in front of it. -/
def unsigned : List Char → List Char
  | '+' :: digits => digits
  | digits => digits

/-- `u64::from_str` -/
def parseU64 (s : String) : Option UInt64 :=
  let digits := unsigned s.toList
  if digits = [] then none else (Decimal.readFrom (2 ^ 64) 0 digits).map UInt64.ofNat

def parsePart (p : String) : Except ParseError UInt64 :=
  match parseU64 p with
  | some n => .ok n
  | none => .error ⟨s!"'{p}' ist keine Zahl"⟩

def Version.fromStr (s : String) : Except ParseError Version :=
  match split '.' s with
  | [major, minor, patch] => do
      let major ← parsePart major
      let minor ← parsePart minor
      let patch ← parsePart patch
      return ⟨major, minor, patch⟩
  | _ => .error ⟨s!"'{s}' erwartet major.minor.patch"⟩

def Version.text (v : Version) : String :=
  toString v.major.toNat ++ "." ++ (toString v.minor.toNat ++ "." ++ toString v.patch.toNat)

/-- `s.strip_prefix('^')` -/
def stripCaret (s : String) : Option String :=
  match s.toList with
  | '^' :: rest => some (String.ofList rest)
  | _ => none

def VersionReq.fromStr (s : String) : Except ParseError VersionReq :=
  match stripCaret s with
  | some rest => (Version.fromStr rest).map .caret
  | none => (Version.fromStr s).map .exact

def VersionReq.text : VersionReq → String
  | .exact v => v.text
  | .caret v => "^" ++ v.text

/-- A number as it is printed: no plus sign, no leading zeros. -/
def trimNumber (p : String) : String := String.ofList (Decimal.trim (unsigned p.toList))

def trimVersion (s : String) : String := ".".intercalate ((split '.' s).map trimNumber)

def trimReq (s : String) : String :=
  match stripCaret s with
  | some rest => "^" ++ trimVersion rest
  | none => trimVersion s

/-- A number that begins with no plus sign and with no superfluous zero. -/
def Plain (p : String) : Prop := p.toList.head? ≠ some '+' ∧ (p.toList.head? = some '0' → p = "0")

section Numbers

theorem unsigned_of_digits {ds : List Char} (digits : ∀ c ∈ ds, c.isDigit = true) : unsigned ds = ds := by
  unfold unsigned
  split
  · exact absurd (digits '+' List.mem_cons_self) (by decide)
  · rfl

theorem parseU64_iff (s : String) (n : UInt64) : parseU64 s = some n ↔ unsigned s.toList ≠ [] ∧
    (∀ c ∈ unsigned s.toList, c.isDigit = true) ∧ Nat.ofDigitChars 10 (unsigned s.toList) 0 = n.toNat := by
  unfold parseU64
  extract_lets digits
  split_ifs with none
  · exact iff_of_false (fun h => by cases h) fun h => h.1 none
  · rw [and_iff_right none, Option.map_eq_some_iff]
    constructor
    · rintro ⟨v, read, rfl⟩
      obtain ⟨valid, value, within⟩ := (Decimal.readFrom_iff (by decide) _ v).mp read
      rw [UInt64.toNat_ofNat_of_lt' within]
      exact ⟨valid, value⟩
    · rintro ⟨valid, value⟩
      refine ⟨n.toNat, (Decimal.readFrom_iff (by decide) _ _).mpr ⟨valid, value, n.toNat_lt⟩, ?_⟩
      exact UInt64.ofNat_toNat

theorem parseU64_toString (n : UInt64) : parseU64 (toString n.toNat) = some n := by
  have digits : ∀ c ∈ Nat.toDigits 10 n.toNat, c.isDigit = true := by
    intro c member
    exact Nat.isDigit_of_mem_toDigits (by decide) (by decide) member
  rw [parseU64_iff, decimal_toList, unsigned_of_digits digits]
  exact ⟨Nat.toDigits_ne_nil, digits, Nat.ofDigitChars_ten_toDigits⟩

theorem toString_of_parseU64 {s : String} {n : UInt64} (read : parseU64 s = some n) :
    toString n.toNat = trimNumber s := by
  obtain ⟨-, digits, value⟩ := (parseU64_iff s n).mp read
  rw [trimNumber, ← Decimal.toDigits_value digits, value]
  rfl

theorem trimNumber_eq_iff {s : String} {n : UInt64} (read : parseU64 s = some n) :
    trimNumber s = s ↔ Plain s := by
  obtain ⟨full, digits, -⟩ := (parseU64_iff s n).mp read
  unfold trimNumber Plain
  rw [← String.toList_inj, String.toList_ofList]
  by_cases signed : s.toList.head? = some '+'
  · refine iff_of_false (fun same => ?_) fun plain => plain.1 signed
    -- what is printed consists of digits
    rw [← same, ← Decimal.toDigits_value digits] at signed
    have digit := Nat.isDigit_of_mem_toDigits (by decide) (by decide) (List.mem_of_mem_head? signed)
    exact absurd digit (by decide)
  · have bare : unsigned s.toList = s.toList := by
      unfold unsigned
      split
      · next shape =>
          rw [shape] at signed
          exact absurd rfl signed
      · rfl
    rw [bare] at full ⊢
    rw [Decimal.trim_eq_iff full, and_iff_right signed, ← String.toList_inj]
    rfl

end Numbers

section Versions

theorem parsePart_ok_iff {p : String} {n : UInt64} : parsePart p = .ok n ↔ parseU64 p = some n := by
  unfold parsePart
  cases parseU64 p with
  | none => exact iff_of_false (fun h => by cases h) fun h => by cases h
  | some m => rw [Except.ok.injEq, Option.some.injEq]

/-- A version is three numbers with a dot between two of them. -/
theorem fromStr_ok_iff {s : String} {v : Version} : Version.fromStr s = .ok v ↔
    ∃ major minor patch, split '.' s = [major, minor, patch] ∧ parseU64 major = some v.major ∧
      parseU64 minor = some v.minor ∧ parseU64 patch = some v.patch := by
  simp only [← parsePart_ok_iff]
  constructor
  · intro read
    unfold Version.fromStr at read
    split at read
    · next major minor patch cut =>
        refine ⟨major, minor, patch, cut, ?_⟩
        cases first : parsePart major with
        | error e =>
            rw [first] at read
            cases read
        | ok a =>
            cases second : parsePart minor with
            | error e =>
                rw [first, second] at read
                cases read
            | ok b =>
                cases third : parsePart patch with
                | error e =>
                    rw [first, second, third] at read
                    cases read
                | ok c =>
                    rw [first, second, third] at read
                    cases read
                    exact ⟨rfl, rfl, rfl⟩
    · cases read
  · rintro ⟨major, minor, patch, cut, first, second, third⟩
    unfold Version.fromStr
    rw [cut]
    dsimp only
    rw [first, second, third]
    rfl

theorem text_eq (v : Version) : v.text =
    ".".intercalate [toString v.major.toNat, toString v.minor.toNat, toString v.patch.toNat] := by
  rw [String.intercalate_cons_cons, String.intercalate_cons_cons, String.intercalate_singleton]
  rfl

theorem free_toString {c : Char} (other : c.isDigit = false) (v : Version) :
    ∀ p ∈ [toString v.major.toNat, toString v.minor.toNat, toString v.patch.toNat], Free c p := by
  simp only [List.mem_cons, List.not_mem_nil, or_false]
  rintro p (rfl | rfl | rfl) <;> exact free_decimal other _

theorem split_text (v : Version) :
    split '.' v.text = [toString v.major.toNat, toString v.minor.toNat, toString v.patch.toNat] := by
  rw [text_eq]
  exact split_intercalate rfl (free_toString rfl v) (List.cons_ne_nil _ _)

theorem fromStr_text (v : Version) : Version.fromStr v.text = .ok v := by
  rw [fromStr_ok_iff]
  refine ⟨_, _, _, split_text v, ?_⟩
  exact ⟨parseU64_toString v.major, parseU64_toString v.minor, parseU64_toString v.patch⟩

theorem text_of_fromStr {s : String} {v : Version} (read : Version.fromStr s = .ok v) :
    v.text = trimVersion s := by
  obtain ⟨major, minor, patch, cut, first, second, third⟩ := fromStr_ok_iff.mp read
  rw [text_eq, trimVersion, cut, toString_of_parseU64 first, toString_of_parseU64 second,
    toString_of_parseU64 third]
  rfl

/-- An accepted text is printed again exactly if its numbers are plain. -/
theorem text_eq_iff {s : String} {v : Version} (read : Version.fromStr s = .ok v) :
    v.text = s ↔ ∀ p ∈ split '.' s, Plain p := by
  obtain ⟨major, minor, patch, cut, first, second, third⟩ := fromStr_ok_iff.mp read
  rw [cut]
  simp only [List.forall_mem_cons, ← trimNumber_eq_iff first, ← trimNumber_eq_iff second,
    ← trimNumber_eq_iff third]
  constructor
  · intro same
    have printed := split_text v
    rw [same, cut, toString_of_parseU64 first, toString_of_parseU64 second, toString_of_parseU64 third] at printed
    simp only [List.cons.injEq, and_true] at printed
    exact ⟨printed.1.symm, printed.2.1.symm, printed.2.2.symm, List.forall_mem_nil _⟩
  · rintro ⟨hmajor, hminor, hpatch, -⟩
    rw [text_eq, toString_of_parseU64 first, toString_of_parseU64 second, toString_of_parseU64 third, hmajor,
      hminor, hpatch, ← cut]
    exact intercalate_split rfl s

end Versions

section Requirements

/-- A requirement without its caret. -/
def bare (s : String) : String := (stripCaret s).getD s

theorem stripCaret_some {s rest : String} (cut : stripCaret s = some rest) : s = "^" ++ rest := by
  unfold stripCaret at cut
  split at cut
  · next cs shape =>
      cases cut
      rw [← String.toList_inj, shape, String.toList_append]
      exact congrArg (List.cons '^') String.toList_ofList.symm
  · cases cut

theorem stripCaret_append (rest : String) : stripCaret ("^" ++ rest) = some rest := by
  have shape : ("^" ++ rest).toList = '^' :: rest.toList := String.toList_append
  rw [stripCaret, shape]
  exact congrArg some String.ofList_toList

theorem stripCaret_text (v : Version) : stripCaret v.text = none := by
  unfold stripCaret
  split
  · next cs shape =>
      have caret : '^' ∈ v.text.toList := by
        rw [shape]
        exact List.mem_cons_self
      simp only [Version.text, String.toList_append, List.mem_append] at caret
      obtain (digit | dot) | (digit | dot) | digit := caret
      · exact absurd digit (free_decimal rfl _)
      · exact absurd dot (by decide)
      · exact absurd digit (free_decimal rfl _)
      · exact absurd dot (by decide)
      · exact absurd digit (free_decimal rfl _)
  · rfl

theorem req_fromStr_text (r : VersionReq) : VersionReq.fromStr r.text = .ok r := by
  unfold VersionReq.fromStr
  cases r with
  | exact v =>
      rw [VersionReq.text, stripCaret_text]
      dsimp only
      rw [fromStr_text]
      rfl
  | caret v =>
      rw [VersionReq.text, stripCaret_append]
      dsimp only
      rw [fromStr_text]
      rfl

theorem req_fromStr_cases {s : String} {r : VersionReq} (read : VersionReq.fromStr s = .ok r) :
    (∃ rest v, stripCaret s = some rest ∧ r = .caret v ∧ Version.fromStr rest = .ok v) ∨
      ∃ v, stripCaret s = none ∧ r = .exact v ∧ Version.fromStr s = .ok v := by
  unfold VersionReq.fromStr at read
  cases cut : stripCaret s with
  | some rest =>
      rw [cut] at read
      cases inner : Version.fromStr rest with
      | error e =>
          simp only [inner] at read
          cases read
      | ok v =>
          simp only [inner] at read
          cases read
          exact .inl ⟨rest, v, rfl, rfl, inner⟩
  | none =>
      rw [cut] at read
      cases inner : Version.fromStr s with
      | error e =>
          simp only [inner] at read
          cases read
      | ok v =>
          simp only [inner] at read
          cases read
          exact .inr ⟨v, rfl, rfl, rfl⟩

theorem text_of_req {s : String} {r : VersionReq} (read : VersionReq.fromStr s = .ok r) : r.text = trimReq s := by
  unfold trimReq
  obtain ⟨rest, v, cut, rfl, inner⟩ | ⟨v, cut, rfl, inner⟩ := req_fromStr_cases read
  · rw [cut, VersionReq.text, text_of_fromStr inner]
  · rw [cut, VersionReq.text, text_of_fromStr inner]

theorem req_text_eq_iff {s : String} {r : VersionReq} (read : VersionReq.fromStr s = .ok r) :
    r.text = s ↔ ∀ p ∈ split '.' (bare s), Plain p := by
  unfold bare
  obtain ⟨rest, v, cut, rfl, inner⟩ | ⟨v, cut, rfl, inner⟩ := req_fromStr_cases read
  · rw [cut, Option.getD_some, ← text_eq_iff inner, VersionReq.text]
    constructor
    · intro same
      rw [← same, stripCaret_append, Option.some.injEq] at cut
      exact cut
    · intro same
      rw [same]
      exact (stripCaret_some cut).symm
  · rw [cut, Option.getD_none, ← text_eq_iff inner, VersionReq.text]

end Requirements

/-- What is printed is read again. What is read is printed without plus signs and leading zeros, so as it was
exactly if it had none, and two texts denote the same version exactly if they differ in nothing else. -/
theorem text_trims :
    (∀ v : Version, Version.fromStr v.text = .ok v) ∧ (∀ r : VersionReq, VersionReq.fromStr r.text = .ok r) ∧
    (∀ s v, Version.fromStr s = .ok v → v.text = trimVersion s ∧ (v.text = s ↔ ∀ p ∈ split '.' s, Plain p)) ∧
    (∀ s r, VersionReq.fromStr s = .ok r →
      r.text = trimReq s ∧ (r.text = s ↔ ∀ p ∈ split '.' (bare s), Plain p)) ∧
    (∀ s t v w, Version.fromStr s = .ok v → Version.fromStr t = .ok w → (v = w ↔ trimVersion s = trimVersion t)) ∧
    ∀ s t q r, VersionReq.fromStr s = .ok q → VersionReq.fromStr t = .ok r → (q = r ↔ trimReq s = trimReq t) := by
  refine ⟨fromStr_text, req_fromStr_text, fun s v read => ⟨text_of_fromStr read, text_eq_iff read⟩,
    fun s r read => ⟨text_of_req read, req_text_eq_iff read⟩, ?_, ?_⟩
  · intro s t v w read read'
    rw [← text_of_fromStr read, ← text_of_fromStr read']
    constructor
    · exact congrArg Version.text
    · intro same
      have back := fromStr_text v
      rw [same, fromStr_text w] at back
      exact (Except.ok.inj back).symm
  · intro s t q r read read'
    rw [← text_of_req read, ← text_of_req read']
    constructor
    · exact congrArg VersionReq.text
    · intro same
      have back := req_fromStr_text q
      rw [same, req_fromStr_text r] at back
      exact (Except.ok.inj back).symm

theorem signed_fromStr : Version.fromStr "+1.02.3" = .ok ⟨1, 2, 3⟩ := by
  rw [fromStr_ok_iff]
  exact ⟨"+1", "02", "3", by decide, by decide, by decide, by decide⟩

theorem text_trims_signed : (⟨1, 2, 3⟩ : Version).text = trimVersion "+1.02.3" :=
  (text_trims.2.2.1 "+1.02.3" ⟨1, 2, 3⟩ signed_fromStr).1

/-- Two texts that denote one version. -/
theorem text_not_inverse : Version.fromStr "+1.02.3" = .ok ⟨1, 2, 3⟩ ∧ Version.fromStr "1.2.3" = .ok ⟨1, 2, 3⟩ ∧
    (⟨1, 2, 3⟩ : Version).text ≠ "+1.02.3" ∧ VersionReq.fromStr "^+1.02.3" = .ok (.caret ⟨1, 2, 3⟩) ∧
      (VersionReq.caret ⟨1, 2, 3⟩).text ≠ "^+1.02.3" := by
  refine ⟨signed_fromStr, fromStr_text ⟨1, 2, 3⟩, by decide, ?_, by decide⟩
  unfold VersionReq.fromStr
  rw [show stripCaret "^+1.02.3" = some "+1.02.3" from stripCaret_append "+1.02.3"]
  dsimp only
  rw [signed_fromStr]
  rfl

end KaiOs.Pkg
