import Mathlib.Data.List.DropRight
import KaiOs.Lib.Utf8

/-! Buffered line reading over a finite byte content. A line is read up to and
including its newline byte, checked to be UTF-8 and handed out without its line
ending; the last line may lack the newline. -/
namespace Lines
open Utf8

/-- The pieces `read_until(b'\n')` returns one after the other. -/
def segments : Bytes → List Bytes
  | [] => []
  | b :: bs =>
      if b = 10 then [b] :: segments bs
      else match segments bs with
        | [] => [[b]]
        | s :: ss => (b :: s) :: ss

/-- A segment without its newline and a carriage return just before that. -/
def chomp (seg : Bytes) : Bytes :=
  if seg.getLast? = some 10 then
    if seg.dropLast.getLast? = some 13 then seg.dropLast.dropLast else seg.dropLast
  else seg

/-- The items of `BufRead::lines`; `none` is the error item of a line that is not
UTF-8. Reading goes on behind such a line. -/
def lines (bs : Bytes) : List (Option String) := (segments bs).map fun seg => decode (chomp seg)

/-- The content is empty or its last line has a newline. -/
def Terminated (bs : Bytes) : Prop := bs = [] ∨ bs.getLast? = some 10

/-- The part up to the last newline byte. -/
def closed (bs : Bytes) : Bytes := bs.rdropWhile (· ≠ 10)

/-- The bytes behind the last newline byte. -/
def tail (bs : Bytes) : Bytes := bs.rtakeWhile (· ≠ 10)

theorem closed_append_tail (bs : Bytes) : closed bs ++ tail bs = bs :=
  List.rdropWhile_append_rtakeWhile

theorem tail_of_terminated {bs : Bytes} (h : Terminated bs) : tail bs = [] := by
  rcases h with rfl | last
  · rfl
  · obtain ⟨front, rfl⟩ := List.getLast?_eq_some_iff.mp last
    exact List.rtakeWhile_concat_neg _ _ _ (by decide)

theorem closed_of_terminated {bs : Bytes} (h : Terminated bs) : closed bs = bs := by
  conv_rhs => rw [← closed_append_tail bs, tail_of_terminated h, List.append_nil]

theorem tail_clean (bs : Bytes) : (10 : UInt8) ∉ tail bs := by
  intro member
  simpa using List.mem_rtakeWhile_imp member

theorem closed_terminated (bs : Bytes) : Terminated (closed bs) := by
  by_cases empty : closed bs = []
  · exact .inl empty
  · refine .inr ?_
    have last := List.rdropWhile_last_not (fun b : UInt8 => decide (b ≠ 10)) bs empty
    have newline : (closed bs).getLast empty = 10 := by
      by_contra other
      exact last (decide_eq_true other)
    rw [List.getLast?_eq_some_getLast empty, newline]

theorem segments_line {l : Bytes} (clean : (10 : UInt8) ∉ l) (rest : Bytes) :
    segments (l ++ 10 :: rest) = (l ++ [10]) :: segments rest := by
  induction l with
  | nil => simp only [List.nil_append, segments, ↓reduceIte]
  | cons b l ih =>
      have other : b ≠ 10 := fun same => clean (by simp only [same, List.mem_cons, true_or])
      have inner := ih (fun member => clean (List.mem_cons_of_mem b member))
      simp only [List.cons_append, segments, if_neg other, inner]

theorem segments_unterminated {l : Bytes} (clean : (10 : UInt8) ∉ l) (full : l ≠ []) :
    segments l = [l] := by
  induction l with
  | nil => exact False.elim (full rfl)
  | cons b l ih =>
      have other : b ≠ 10 := fun same => clean (by simp only [same, List.mem_cons, true_or])
      cases l with
      | nil => simp only [segments, if_neg other]
      | cons c l =>
          have inner := ih (fun member => clean (List.mem_cons_of_mem b member)) (by simp)
          rw [segments, if_neg other, inner]

theorem segments_ne_nil {bs : Bytes} (full : bs ≠ []) : segments bs ≠ [] := by
  cases bs with
  | nil => exact False.elim (full rfl)
  | cons b bs =>
      rw [segments]
      split_ifs
      · simp
      · split <;> simp

theorem segments_append {pre : Bytes} (h : Terminated pre) (rest : Bytes) :
    segments (pre ++ rest) = segments pre ++ segments rest := by
  induction pre with
  | nil => rfl
  | cons b pre ih =>
      have last : (b :: pre).getLast? = some 10 := by
        rcases h with empty | last
        · cases empty
        · exact last
      by_cases newline : b = 10
      · have inner : Terminated pre := by
          cases pre with
          | nil => exact .inl rfl
          | cons c pre => exact .inr (by rwa [List.getLast?_cons_cons] at last)
        rw [List.cons_append, segments, segments, if_pos newline, if_pos newline, ih inner,
          List.cons_append]
      · cases pre with
        | nil => exact False.elim (newline (by simpa using last))
        | cons c pre =>
            have inner := ih (.inr (by rwa [List.getLast?_cons_cons] at last))
            rw [List.cons_append, segments, segments, if_neg newline, if_neg newline, inner]
            cases found : segments (c :: pre) with
            | nil => exact False.elim (segments_ne_nil (by simp) found)
            | cons s ss => rfl

@[simp] theorem lines_nil : lines [] = [] := rfl

theorem lines_append {pre : Bytes} (h : Terminated pre) (rest : Bytes) :
    lines (pre ++ rest) = lines pre ++ lines rest := by
  rw [lines, segments_append h, List.map_append]
  rfl

theorem chomp_line {l : Bytes} (bare : l.getLast? ≠ some 13) : chomp (l ++ [10]) = l := by
  rw [chomp, List.getLast?_concat, if_pos rfl, List.dropLast_concat, if_neg bare]

theorem chomp_unterminated {l : Bytes} (clean : (10 : UInt8) ∉ l) : chomp l = l := by
  have last : l.getLast? ≠ some 10 := fun same => clean (List.mem_of_getLast? same)
  rw [chomp, if_neg last]

theorem lines_line {l : Bytes} (clean : (10 : UInt8) ∉ l) (bare : l.getLast? ≠ some 13)
    (rest : Bytes) : lines (l ++ 10 :: rest) = decode l :: lines rest := by
  rw [lines, segments_line clean, List.map_cons, chomp_line bare]
  rfl

theorem lines_unterminated {l : Bytes} (clean : (10 : UInt8) ∉ l) (full : l ≠ []) :
    lines l = [decode l] := by
  rw [lines, segments_unterminated clean full, List.map_singleton, chomp_unterminated clean]

theorem lines_split (bs : Bytes) :
    lines bs = lines (closed bs) ++ if tail bs = [] then [] else [decode (tail bs)] := by
  conv_lhs => rw [← closed_append_tail bs, lines_append (closed_terminated bs)]
  split_ifs with empty
  · rw [empty, lines_nil]
  · rw [lines_unterminated (tail_clean bs) empty]

theorem terminated_line (l : Bytes) : Terminated (l ++ [10]) :=
  .inr (by simp)

theorem Terminated.append {pre rest : Bytes} (hp : Terminated pre) (hr : Terminated rest) :
    Terminated (pre ++ rest) := by
  rcases hr with rfl | last
  · simpa using hp
  · exact .inr (by rw [List.getLast?_append, last, Option.some_or])

end Lines
