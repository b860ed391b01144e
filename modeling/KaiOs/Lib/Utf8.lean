import Mathlib.Data.List.Basic

/-! Byte contents of text. `utf8` is the byte sequence of a string and `decode`
its partial inverse: the string whose bytes these are, if there is one. -/
namespace Utf8

abbrev Bytes := List UInt8

def utf8 (s : String) : Bytes := s.toByteArray.data.toList

def decode (bs : Bytes) : Option String := String.fromUTF8? bs.toByteArray

@[simp] theorem utf8_empty : utf8 "" = [] := rfl

@[simp] theorem utf8_append (s t : String) : utf8 (s ++ t) = utf8 s ++ utf8 t := by
  simp only [utf8, String.toByteArray_append, ByteArray.toList_data_append]

theorem utf8_ofList (cs : List Char) :
    utf8 (String.ofList cs) = cs.flatMap String.utf8EncodeChar := by
  simp only [utf8, String.toByteArray_ofList, List.utf8Encode, List.data_toByteArray]

theorem toByteArray_utf8 (s : String) : (utf8 s).toByteArray = s.toByteArray :=
  ByteArray.ext (by simp only [utf8, List.data_toByteArray, Array.toArray_toList])

theorem utf8_inj {s t : String} : utf8 s = utf8 t ↔ s = t := by
  rw [← String.toByteArray_inj, ← toByteArray_utf8 s, ← toByteArray_utf8 t, List.toByteArray_inj]

theorem decode_eq_some {bs : Bytes} {s : String} : decode bs = some s ↔ utf8 s = bs := by
  unfold decode String.fromUTF8?
  split
  · rename_i valid
    rw [Option.some.injEq, ← String.toByteArray_inj, ← List.toByteArray_inj, toByteArray_utf8]
    exact eq_comm
  · rename_i invalid
    constructor
    · intro absurd
      cases absurd
    · intro same
      rw [← same, toByteArray_utf8] at invalid
      exact False.elim (invalid s.isValidUTF8)

@[simp] theorem decode_utf8 (s : String) : decode (utf8 s) = some s := decode_eq_some.mpr rfl

@[simp] theorem decode_nil : decode [] = some "" := decode_eq_some.mpr rfl

theorem utf8_eq_nil {s : String} : utf8 s = [] ↔ s = "" := utf8_inj (t := "")

theorem prefix_of_utf8_append {s t : String} {rest : Bytes} (h : utf8 s ++ rest = utf8 t) :
    ∃ u, t = s ++ u ∧ utf8 u = rest := by
  have bytes : s.toList.utf8Encode ++ rest.toByteArray = t.toList.utf8Encode := by
    rw [← String.toByteArray_ofList, ← String.toByteArray_ofList, String.ofList_toList,
      String.ofList_toList, ← toByteArray_utf8 s, ← toByteArray_utf8 t, ← h, List.toByteArray_append]
  obtain ⟨us, same⟩ := List.isPrefix_of_utf8Encode_append_eq_utf8Encode _ bytes
  have joined : t = s ++ String.ofList us := by
    rw [← String.toList_inj, String.toList_append, String.toList_ofList, same]
  refine ⟨String.ofList us, joined, ?_⟩
  rw [joined, utf8_append] at h
  exact (List.append_cancel_left h).symm

/-- Text that is cut off decodes to a proper beginning of it, or not at all. -/
theorem decode_prefix {s t : String} {p rest : Bytes} (h : p ++ rest = utf8 t)
    (hd : decode p = some s) : ∃ u, t = s ++ u ∧ utf8 u = rest :=
  prefix_of_utf8_append (by rw [decode_eq_some.mp hd, h])

/-- Text in front does not change whether bytes are text. -/
theorem decode_utf8_append (s : String) (bs : Bytes) :
    (decode (utf8 s ++ bs)).isSome = (decode bs).isSome := by
  rw [Bool.eq_iff_iff, Option.isSome_iff_exists, Option.isSome_iff_exists]
  constructor
  · rintro ⟨t, whole⟩
    obtain ⟨u, _, rest⟩ := prefix_of_utf8_append (decode_eq_some.mp whole).symm
    exact ⟨u, decode_eq_some.mpr rest⟩
  · rintro ⟨u, rest⟩
    exact ⟨s ++ u, decode_eq_some.mpr (by rw [utf8_append, decode_eq_some.mp rest])⟩

theorem ascii_mem_encodeChar {c : Char} (small : c.val.toNat < 128) (d : Char) :
    UInt8.ofNat c.val.toNat ∈ String.utf8EncodeChar d ↔ d = c := by
  have value : d = c ↔ d.val.toNat = c.val.toNat := Char.toNat_inj.symm
  have byte (m : ℕ) (h : m < 256) : UInt8.ofNat c.val.toNat = UInt8.ofNat m ↔ m = c.val.toNat := by
    rw [← UInt8.toNat_inj, UInt8.toNat_ofNat_of_lt' h,
      UInt8.toNat_ofNat_of_lt' (show c.val.toNat < 256 by omega)]
    exact eq_comm
  rw [value]
  simp only [String.utf8EncodeChar]
  split_ifs with one two three
  · rw [List.mem_singleton, byte _ (by omega)]
  all_goals
    simp only [List.mem_cons, List.not_mem_nil, or_false]
    repeat rw [byte _ (by omega)]
    omega

/-- Only the character itself puts its byte into a text's bytes. -/
theorem ascii_mem_utf8 {c : Char} (small : c.val.toNat < 128) (s : String) :
    UInt8.ofNat c.val.toNat ∈ utf8 s ↔ c ∈ s.toList := by
  conv_lhs => rw [← String.ofList_toList (s := s)]
  rw [utf8_ofList, List.mem_flatMap]
  constructor
  · rintro ⟨d, member, byte⟩
    exact (ascii_mem_encodeChar small d).mp byte ▸ member
  · intro member
    exact ⟨c, member, (ascii_mem_encodeChar small c).mpr rfl⟩

theorem newline_mem_utf8 (s : String) : (10 : UInt8) ∈ utf8 s ↔ '\n' ∈ s.toList :=
  ascii_mem_utf8 (c := '\n') (by decide) s

theorem encodeChar_ascii {c : Char} (small : c.val.toNat < 128) :
    String.utf8EncodeChar c = [UInt8.ofNat c.val.toNat] := by
  simp only [String.utf8EncodeChar]
  rw [if_pos (by omega)]

theorem flatMap_cut {c : Char} (small : c.val.toNat < 128) {cs : List Char} {front back : Bytes}
    (h : cs.flatMap String.utf8EncodeChar = front ++ UInt8.ofNat c.val.toNat :: back) :
    ∃ xs ys, cs = xs ++ c :: ys ∧ xs.flatMap String.utf8EncodeChar = front ∧
      ys.flatMap String.utf8EncodeChar = back := by
  induction cs generalizing front with
  | nil => exact absurd h.symm (by simp)
  | cons d cs ih =>
      rw [List.flatMap_cons] at h
      rcases List.append_eq_append_iff.mp h with ⟨more, rfl, rest⟩ | ⟨more, here, rest⟩
      · obtain ⟨xs, ys, rfl, rfl, rfl⟩ := ih rest
        exact ⟨d :: xs, ys, rfl, List.flatMap_cons, rfl⟩
      · cases more with
        | nil =>
            have later := rest.symm.trans (List.nil_append _).symm
            obtain ⟨xs, ys, rfl, none, rfl⟩ := ih later
            refine ⟨d :: xs, ys, rfl, ?_, rfl⟩
            rw [List.flatMap_cons, none, here, List.append_nil, List.append_nil]
        | cons b more =>
            -- the byte is the encoding of `d` itself
            rw [List.cons_append, List.cons.injEq] at rest
            obtain ⟨rfl, rest⟩ := rest
            have same : d = c :=
              (ascii_mem_encodeChar small d).mp (here ▸ List.mem_append_right _ List.mem_cons_self)
            rw [same, encodeChar_ascii small] at here
            rcases List.singleton_eq_append_iff.mp here with ⟨nothing, last⟩ | ⟨_, absurd⟩
            · obtain ⟨_, nothing'⟩ := List.cons.inj last
              rw [nothing', List.nil_append] at rest
              exact ⟨[], cs, by rw [same, List.nil_append], nothing.symm, rest.symm⟩
            · cases absurd

/-- Text can be cut at a byte below 128. -/
theorem utf8_cut {c : Char} (small : c.val.toNat < 128) {t : String} {front back : Bytes}
    (h : utf8 t = front ++ UInt8.ofNat c.val.toNat :: back) :
    ∃ x y, t = x ++ String.singleton c ++ y ∧ utf8 x = front ∧ utf8 y = back := by
  rw [← String.ofList_toList (s := t), utf8_ofList] at h
  obtain ⟨xs, ys, split, first, last⟩ := flatMap_cut small h
  refine ⟨String.ofList xs, String.ofList ys, ?_, ?_, ?_⟩
  · rw [← String.toList_inj, split]
    simp
  · rw [utf8_ofList, first]
  · rw [utf8_ofList, last]

theorem utf8_singleton {c : Char} (small : c.val.toNat < 128) :
    utf8 (String.singleton c) = [UInt8.ofNat c.val.toNat] := by
  have single : String.singleton c = String.ofList [c] := by
    rw [← String.toList_inj, String.toList_singleton, String.toList_ofList]
  rw [single, utf8_ofList, List.flatMap_singleton, encodeChar_ascii small]

/-- A text field in front of a separator: the same cut, or one cut lies at a separator further
to the right. -/
theorem field_cuts {c : Char} (small : c.val.toNat < 128) {s t : String} {p q : Bytes}
    (h : utf8 s ++ UInt8.ofNat c.val.toNat :: p = utf8 t ++ UInt8.ofNat c.val.toNat :: q) :
    (s = t ∧ p = q) ∨
    (∃ u, t = s ++ String.singleton c ++ u ∧ p = utf8 u ++ UInt8.ofNat c.val.toNat :: q) ∨
    (∃ u, s = t ++ String.singleton c ++ u ∧ q = utf8 u ++ UInt8.ofNat c.val.toNat :: p) := by
  have longer {s t : String} {p q more : Bytes} (front : utf8 t = utf8 s ++ more)
      (back : UInt8.ofNat c.val.toNat :: p = more ++ UInt8.ofNat c.val.toNat :: q) :
      (s = t ∧ p = q) ∨
      (∃ u, t = s ++ String.singleton c ++ u ∧ p = utf8 u ++ UInt8.ofNat c.val.toNat :: q) := by
    cases more with
    | nil =>
        rw [List.append_nil] at front
        exact .inl ⟨(utf8_inj.mp front).symm, (List.cons.inj back).2⟩
    | cons b more =>
        obtain ⟨rfl, rest⟩ := List.cons.inj back
        obtain ⟨u, rfl, tail⟩ := prefix_of_utf8_append front.symm
        rw [← List.singleton_append, ← utf8_singleton small] at tail
        obtain ⟨v, rfl, last⟩ := prefix_of_utf8_append tail.symm
        rw [← last] at rest
        exact .inr ⟨v, (String.append_assoc ..).symm, rest⟩
  rcases List.append_eq_append_iff.mp h with ⟨more, front, back⟩ | ⟨more, front, back⟩
  · rcases longer front back with same | cut
    · exact .inl same
    · exact .inr (.inl cut)
  · rcases longer front back with ⟨same, rest⟩ | cut
    · exact .inl ⟨same.symm, rest.symm⟩
    · exact .inr (.inr cut)

end Utf8
