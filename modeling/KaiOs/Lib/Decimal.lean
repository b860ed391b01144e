import Mathlib.Data.List.Basic

/-! Decimal numerals with leading zeros: reading one below a bound, and what printing its value gives back. -/
namespace Decimal

/-- Each digit extends the value read so far, which has to stay below the bound. -/
def readFrom (bound : ℕ) : ℕ → List Char → Option ℕ
  | n, [] => some n
  | n, c :: cs =>
      if c.isDigit ∧ 10 * n + (c.toNat - 48) < bound then readFrom bound (10 * n + (c.toNat - 48)) cs else none

/-- A numeral without leading zeros, a last one excepted. -/
def trim (ds : List Char) : List Char :=
  match ds.dropWhile (· == '0') with
  | [] => ['0']
  | d :: rest => d :: rest

theorem digitChar_of_isDigit {c : Char} (digit : c.isDigit = true) :
    c.toNat - 48 < 10 ∧ (c.toNat - 48).digitChar = c := by
  obtain ⟨low, high⟩ := Char.isDigit_iff_toNat.mp digit
  have least : '0'.toNat = 48 := rfl
  have most : '9'.toNat = 57 := rfl
  have small : c.toNat - 48 < 10 := by omega
  refine ⟨small, Char.toNat_inj.mp ?_⟩
  rw [Nat.toNat_digitChar_of_lt_ten small]
  omega

theorem value_cons (c : Char) (cs : List Char) (n : ℕ) :
    Nat.ofDigitChars 10 (c :: cs) n = Nat.ofDigitChars 10 cs (10 * n + (c.toNat - 48)) := Nat.ofDigitChars_cons

theorem le_value (ds : List Char) (n : ℕ) : n ≤ Nat.ofDigitChars 10 ds n := by
  induction ds generalizing n with
  | nil => exact Nat.le_of_eq Nat.ofDigitChars_nil.symm
  | cons c cs ih =>
      rw [value_cons]
      have later := ih (10 * n + (c.toNat - 48))
      omega

/-- The bound is met at every digit exactly if the value meets it. -/
theorem readFrom_iff {bound n : ℕ} (below : n < bound) (ds : List Char) (v : ℕ) : readFrom bound n ds = some v ↔
    (∀ c ∈ ds, c.isDigit = true) ∧ Nat.ofDigitChars 10 ds n = v ∧ v < bound := by
  induction ds generalizing n with
  | nil =>
      rw [readFrom, Nat.ofDigitChars_nil, Option.some.injEq]
      constructor
      · rintro rfl
        exact ⟨List.forall_mem_nil _, rfl, below⟩
      · exact fun h => h.2.1
  | cons c cs ih =>
      rw [readFrom, value_cons, List.forall_mem_cons]
      split_ifs with fits
      · rw [ih fits.2, and_iff_right fits.1]
      · refine iff_of_false (fun h => by cases h) ?_
        rintro ⟨⟨digit, -⟩, rfl, within⟩
        exact fits ⟨digit, Nat.lt_of_le_of_lt (le_value cs _) within⟩

theorem toDigits_value_of_pos {n : ℕ} (pos : 0 < n) {ds : List Char} (digits : ∀ c ∈ ds, c.isDigit = true) :
    Nat.toDigits 10 (Nat.ofDigitChars 10 ds n) = Nat.toDigits 10 n ++ ds := by
  induction ds generalizing n with
  | nil => rw [Nat.ofDigitChars_nil, List.append_nil]
  | cons c cs ih =>
      obtain ⟨digit, later⟩ := List.forall_mem_cons.mp digits
      obtain ⟨small, back⟩ := digitChar_of_isDigit digit
      rw [value_cons, ih (by omega) later, ← Nat.toDigits_append_toDigits (by decide) pos small,
        Nat.toDigits_of_lt_base small, back, List.append_assoc, List.singleton_append]

/-- Printing the value of a numeral takes its leading zeros away. -/
theorem toDigits_value {ds : List Char} (digits : ∀ c ∈ ds, c.isDigit = true) :
    Nat.toDigits 10 (Nat.ofDigitChars 10 ds 0) = trim ds := by
  induction ds with
  | nil => rfl
  | cons c cs ih =>
      obtain ⟨digit, later⟩ := List.forall_mem_cons.mp digits
      rw [value_cons, Nat.mul_zero, Nat.zero_add, trim, List.dropWhile_cons]
      by_cases zero : c = '0'
      · rw [zero]
        exact ih later
      · obtain ⟨small, back⟩ := digitChar_of_isDigit digit
        have pos : 0 < c.toNat - 48 := by
          apply Nat.pos_of_ne_zero
          intro none
          rw [none] at back
          exact zero back.symm
        rw [toDigits_value_of_pos pos later, Nat.toDigits_of_lt_base small, back, List.singleton_append,
          if_neg (by simpa using zero)]

/-- A numeral is printed as it stands exactly if it does not begin with a superfluous zero. -/
theorem trim_eq_iff {ds : List Char} (full : ds ≠ []) : trim ds = ds ↔ (ds.head? = some '0' → ds = ['0']) := by
  obtain ⟨c, cs, rfl⟩ := List.exists_cons_of_ne_nil full
  rw [trim, List.dropWhile_cons, List.head?_cons, Option.some.injEq]
  by_cases zero : c = '0'
  · subst zero
    rw [if_pos (by decide), imp_iff_right rfl]
    constructor
    · intro same
      split at same
      · exact same.symm
      · next d rest shorter =>
          have length := (List.dropWhile_sublist (p := (· == '0')) (l := cs)).length_le
          rw [shorter, same, List.length_cons] at length
          omega
    · intro single
      obtain rfl : cs = [] := (List.cons.inj single).2
      rfl
  · rw [if_neg (by simpa using zero)]
    exact iff_of_true rfl fun same => absurd same zero

end Decimal
