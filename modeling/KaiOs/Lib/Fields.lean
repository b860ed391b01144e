import Mathlib.Data.List.Basic

/-! Texts put together from fields with a one-character separator. A field that is
free of the separator can be read back from the front or from the end. -/
namespace Fields

/-- The character does not occur in the text. -/
def Free (c : Char) (s : String) : Prop := c ∉ s.toList

instance (c : Char) (s : String) : Decidable (Free c s) := inferInstanceAs (Decidable (_ ∉ _))

theorem cons_split {α : Type*} {c : α} {a b x y : List α} (ha : c ∉ a) (hb : c ∉ b)
    (h : a ++ c :: x = b ++ c :: y) : a = b ∧ x = y := by
  induction a generalizing b with
  | nil =>
      cases b with
      | nil => exact ⟨rfl, (List.cons.inj h).2⟩
      | cons d b => exact False.elim (hb ((List.cons.inj h).1 ▸ List.mem_cons_self))
  | cons d a ih =>
      cases b with
      | nil => exact False.elim (ha ((List.cons.inj h).1 ▸ List.mem_cons_self))
      | cons e b =>
          obtain ⟨head, rest⟩ := List.cons.inj h
          obtain ⟨same, last⟩ := ih (fun m => ha (List.mem_cons_of_mem d m))
            (fun m => hb (List.mem_cons_of_mem e m)) rest
          exact ⟨by rw [head, same], last⟩

theorem cons_split_last {α : Type*} {c : α} {a b x y : List α} (hx : c ∉ x) (hy : c ∉ y)
    (h : a ++ c :: x = b ++ c :: y) : a = b ∧ x = y := by
  have reversed := congrArg List.reverse h
  simp only [List.reverse_append, List.reverse_cons, List.append_assoc,
    List.singleton_append] at reversed
  obtain ⟨back, front⟩ := cons_split (by simpa using hx) (by simpa using hy) reversed
  exact ⟨List.reverse_injective front, List.reverse_injective back⟩

theorem free_iff_count {c : Char} {xs : List String} :
    (xs.flatMap String.toList).count c = 0 ↔ ∀ x ∈ xs, Free c x := by
  rw [List.count_eq_zero, List.mem_flatMap, not_exists]
  exact forall_congr' fun x => not_and

/-- The fields of a text, cut at every separator. -/
def split (c : Char) (s : String) : List String := (s.toList.splitOn c).map String.ofList

/-- Paragraphs one behind the other, each closed by a separator. -/
def close (sep : String) : List String → String
  | [] => ""
  | x :: xs => x ++ sep ++ close sep xs

section
variable {c : Char} {sep : String} (hsep : sep.toList = [c])
include hsep

private theorem join_toList (s t : String) : (s ++ sep ++ t).toList = s.toList ++ c :: t.toList := by
  simp only [String.toList_append, hsep, List.append_assoc, List.singleton_append]

theorem first_field {a b x y : String} (ha : Free c a) (hb : Free c b)
    (h : a ++ sep ++ x = b ++ sep ++ y) : a = b ∧ x = y := by
  rw [← String.toList_inj, join_toList hsep, join_toList hsep] at h
  obtain ⟨front, back⟩ := cons_split ha hb h
  exact ⟨String.toList_inj.mp front, String.toList_inj.mp back⟩

theorem last_field {a b x y : String} (hx : Free c x) (hy : Free c y)
    (h : a ++ sep ++ x = b ++ sep ++ y) : a = b ∧ x = y := by
  rw [← String.toList_inj, join_toList hsep, join_toList hsep] at h
  obtain ⟨front, back⟩ := cons_split_last hx hy h
  exact ⟨String.toList_inj.mp front, String.toList_inj.mp back⟩

theorem exists_last_field {s : String} (bar : ¬ Free c s) :
    ∃ front back, s = front ++ sep ++ back ∧ Free c back := by
  obtain ⟨xs, ys, split, free⟩ :=
    List.eq_append_cons_of_mem (List.mem_reverse.mpr (not_not.mp bar))
  refine ⟨String.ofList ys.reverse, String.ofList xs.reverse, ?_, ?_⟩
  · rw [← String.toList_inj, join_toList hsep, String.toList_ofList, String.toList_ofList,
      ← List.reverse_reverse s.toList, split]
    simp
  · simpa [Free] using free

private theorem intercalate_toList (xs : List String) :
    (sep.intercalate xs).toList = [c].intercalate (xs.map String.toList) := by
  rw [String.toList_intercalate, hsep]

theorem split_intercalate {xs : List String} (free : ∀ x ∈ xs, Free c x) (full : xs ≠ []) :
    split c (sep.intercalate xs) = xs := by
  have clean : ∀ l ∈ xs.map String.toList, c ∉ l := by
    intro l member
    obtain ⟨x, inside, rfl⟩ := List.mem_map.mp member
    exact free x inside
  have back : String.ofList ∘ String.toList = id := funext fun s => String.ofList_toList
  rw [split, intercalate_toList hsep, List.splitOn_intercalate c clean (by simpa using full), List.map_map, back,
    List.map_id]

theorem intercalate_split (s : String) : sep.intercalate (split c s) = s := by
  have back : String.toList ∘ String.ofList = id := funext fun cs => String.toList_ofList
  rw [← String.toList_inj, intercalate_toList hsep, split, List.map_map, back, List.map_id,
    List.intercalate_splitOn]

theorem intercalate_inj_of_ne_nil {xs ys : List String} (hx : ∀ x ∈ xs, Free c x) (hy : ∀ y ∈ ys, Free c y)
    (full : xs ≠ []) (full' : ys ≠ []) (h : sep.intercalate xs = sep.intercalate ys) : xs = ys := by
  rw [← split_intercalate hsep hx full, h, split_intercalate hsep hy full']

theorem intercalate_inj {xs ys : List String} (hx : ∀ x ∈ xs, Free c x ∧ x ≠ "")
    (hy : ∀ y ∈ ys, Free c y ∧ y ≠ "") (h : sep.intercalate xs = sep.intercalate ys) : xs = ys := by
  have filled {zs : List String} (hz : ∀ z ∈ zs, Free c z ∧ z ≠ "") (full : zs ≠ []) :
      sep.intercalate zs ≠ "" := by
    intro none
    obtain ⟨z, rest, rfl⟩ := List.exists_cons_of_ne_nil full
    rw [← String.append_empty (s := z), String.intercalate_cons_append] at none
    exact (hz z List.mem_cons_self).2 (String.append_eq_empty_iff.mp none).1
  by_cases full : xs = []
  · by_contra other
    rw [full, String.intercalate_nil] at h
    exact filled hy (fun none => other (full.trans none.symm)) h.symm
  · have full' : ys ≠ [] := by
      rintro rfl
      exact filled hx full h
    exact intercalate_inj_of_ne_nil hsep (fun x member => (hx x member).1) (fun y member => (hy y member).1)
      full full' h

/-- The separators of a text of fields: one between two fields, and those inside them. -/
theorem count_intercalate {xs : List String} (full : xs ≠ []) :
    (sep.intercalate xs).toList.count c + 1 = xs.length + (xs.flatMap String.toList).count c := by
  induction xs with
  | nil => exact False.elim (full rfl)
  | cons x xs ih =>
      cases xs with
      | nil => simp only [String.intercalate_singleton, List.flatMap_singleton, List.length_singleton,
          Nat.add_comm]
      | cons y ys =>
          have rest := ih (List.cons_ne_nil y ys)
          rw [String.intercalate_cons_cons, join_toList hsep, List.count_append, List.count_cons_self,
            List.flatMap_cons, List.count_append, List.length_cons]
          omega

/-- As many fields with the same text have no separator inside either. -/
theorem free_of_intercalate_eq {xs ys : List String} (full : xs ≠ []) (free : ∀ x ∈ xs, Free c x)
    (lengths : ys.length = xs.length) (h : sep.intercalate ys = sep.intercalate xs) : ∀ y ∈ ys, Free c y := by
  have full' : ys ≠ [] := by
    rintro rfl
    exact full (List.length_eq_zero_iff.mp lengths.symm)
  have counted := count_intercalate hsep full
  have counted' := count_intercalate hsep full'
  rw [h] at counted'
  rw [← free_iff_count] at free ⊢
  omega

omit hsep in
/-- A separator between two fields may as well be taken for a character of one field. -/
theorem intercalate_merge (front rest : List String) (x y : String) :
    sep.intercalate (front ++ (x ++ sep ++ y) :: rest) = sep.intercalate (front ++ x :: y :: rest) := by
  induction front with
  | nil => rw [List.nil_append, List.nil_append, String.intercalate_cons_append, String.intercalate_cons_cons]
  | cons f front ih =>
      rw [List.cons_append, List.cons_append, String.intercalate_cons_of_ne_nil (by simp),
        String.intercalate_cons_of_ne_nil (by simp), ih]

theorem append_sep_ne (x y : String) : x ++ sep ++ y ≠ x ∧ x ++ sep ++ y ≠ y := by
  constructor <;>
  · intro same
    have lengths := congrArg (fun s => s.toList.length) same
    simp only [join_toList hsep, List.length_append, List.length_cons] at lengths
    omega

/-- Several fields can be cut back from their text in one way only, exactly when none of them
contains the separator. -/
theorem cut_unique_iff {xs : List String} (several : 2 ≤ xs.length) :
    (∀ ys, ys.length = xs.length → sep.intercalate ys = sep.intercalate xs → ys = xs) ↔
      ∀ x ∈ xs, Free c x := by
  have full : xs ≠ [] := List.ne_nil_of_length_pos (by omega)
  constructor
  · intro unique x member
    by_contra bar
    obtain ⟨a, b, rfl, -⟩ := exists_last_field hsep bar
    obtain ⟨front, rest, rfl⟩ := List.append_of_mem member
    cases rest with
    | cons z rest =>
        -- the text behind the separator goes to the next field
        have moved := unique (front ++ a :: (b ++ sep ++ z) :: rest) (by simp) (by
          rw [List.append_cons, intercalate_merge, intercalate_merge, ← List.append_cons])
        have same := (List.cons.inj (List.append_cancel_left moved)).1
        exact (append_sep_ne hsep a b).1 same.symm
    | nil =>
        -- the text in front of the separator goes to the field before
        obtain rfl | ⟨before, z, rfl⟩ := List.eq_nil_or_concat front
        · simp at several
        · have moved := unique (before ++ (z ++ sep ++ a) :: [b]) (by simp) (by
            rw [intercalate_merge, intercalate_merge, List.concat_eq_append, ← List.append_cons])
          rw [List.append_cons] at moved
          have same := List.singleton_injective (List.append_inj' moved rfl).2
          exact (append_sep_ne hsep a b).2 same.symm
  · intro free ys lengths same
    have full' : ys ≠ [] := by
      rintro rfl
      exact full (List.length_eq_zero_iff.mp lengths.symm)
    exact intercalate_inj_of_ne_nil hsep (free_of_intercalate_eq hsep full free lengths same) free full' full same

section Paragraphs

theorem split_append (a b : String) : split c (a ++ sep ++ b) = split c a ++ split c b := by
  rw [split, join_toList hsep, List.splitOn_append_cons_self, List.map_append]
  rfl

theorem split_close (xs : List String) : split c (close sep xs) = xs.flatMap (split c) ++ [""] := by
  induction xs with
  | nil => rfl
  | cons x xs ih => rw [close, split_append hsep, ih, List.flatMap_cons, List.append_assoc]

theorem split_injective : Function.Injective (split c) := by
  intro s t same
  rw [← intercalate_split hsep s, same, intercalate_split hsep t]

/-- The text tells the lines. -/
theorem close_eq_iff (xs ys : List String) :
    close sep xs = close sep ys ↔ xs.flatMap (split c) = ys.flatMap (split c) := by
  rw [← (split_injective hsep).eq_iff, split_close hsep, split_close hsep, List.append_left_inj]

/-- It tells the paragraphs unless the same lines are grouped in another way. -/
theorem close_inj_iff (xs ys : List String) : (close sep xs = close sep ys → xs = ys) ↔
    (xs.flatMap (split c) = ys.flatMap (split c) →
      xs.map (fun x => (split c x).length) = ys.map fun y => (split c y).length) := by
  rw [close_eq_iff hsep]
  refine imp_congr_right fun lines => ?_
  rw [← (List.map_injective_iff.mpr (split_injective hsep)).eq_iff, List.eq_iff_flatten_eq, ← List.flatMap_def,
    ← List.flatMap_def, and_iff_right lines, List.map_map, List.map_map]
  rfl

theorem close_inj_of_free {xs ys : List String} (hx : ∀ x ∈ xs, Free c x) (hy : ∀ y ∈ ys, Free c y)
    (same : close sep xs = close sep ys) : xs = ys := by
  have single {zs : List String} (hz : ∀ z ∈ zs, Free c z) : zs.flatMap (split c) = zs := by
    rw [List.flatMap_congr fun z member => show split c z = [z] by
      rw [split, List.splitOn_eq_singleton (hz z member), List.map_singleton, String.ofList_toList]]
    exact List.flatMap_singleton' zs
  rwa [close_eq_iff hsep, single hx, single hy] at same

end Paragraphs

end

theorem free_append {c : Char} {s t : String} : Free c (s ++ t) ↔ Free c s ∧ Free c t := by
  rw [Free, Free, Free, String.toList_append, List.mem_append, not_or]

theorem free_intercalate {c : Char} {sep : String} (between : Free c sep) {xs : List String}
    (free : ∀ x ∈ xs, Free c x) : Free c (sep.intercalate xs) := by
  induction xs with
  | nil => exact List.not_mem_nil
  | cons x xs ih =>
      obtain ⟨here, others⟩ := List.forall_mem_cons.mp free
      cases xs with
      | nil =>
          rw [String.intercalate_singleton]
          exact here
      | cons y xs =>
          rw [String.intercalate_cons_cons, free_append, free_append]
          exact ⟨⟨here, between⟩, ih others⟩

theorem decimal_toList (n : ℕ) : (toString n).toList = Nat.toDigits 10 n := String.toList_ofList

theorem free_decimal {c : Char} (other : c.isDigit = false) (n : ℕ) : Free c (toString n) := by
  intro member
  rw [decimal_toList] at member
  have digit := Nat.isDigit_of_mem_toDigits (by decide) (by decide) member
  rw [other] at digit
  cases digit

theorem decimal_inj {n m : ℕ} (h : toString n = toString m) : n = m := by
  have digits : Nat.toDigits 10 n = Nat.toDigits 10 m := by
    rw [← decimal_toList, ← decimal_toList, h]
  rw [← Nat.ofDigitChars_ten_toDigits (n := n), digits, Nat.ofDigitChars_ten_toDigits]

end Fields
