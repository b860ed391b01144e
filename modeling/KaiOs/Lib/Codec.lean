import KaiOs.Lib.Fields
import KaiOs.Lib.Lines

/-! Text codecs as `serde_json` provides them for a type that derives `Serialize` and
`Deserialize`: printing such a value cannot fail, parsing can. What a caller relies on
is stated as properties of the codec. -/

structure Codec (α : Type*) where
  text : α → String
  parse : String → Option α

namespace Codec
variable {α : Type*} (c : Codec α)

def RoundTrips : Prop := ∀ a, c.parse (c.text a) = some a

/-- The compact form has no raw newline: those in strings are escaped. -/
def OneLine : Prop := ∀ a, Fields.Free '\n' (c.text a)

/-- A record is printed as one JSON object. -/
def Braced : Prop := ∀ a, ∃ body, c.text a = "\x7b" ++ body ++ "\x7d"

def RejectsEmpty : Prop := c.parse "" = none

/-- Text that breaks off is not accepted. -/
def RejectsPrefixes : Prop := ∀ a p q, c.text a = p ++ q → p ≠ "" → q ≠ "" → c.parse p = none

/-- The white space JSON knows. -/
def isJsonSpace (ch : Char) : Bool := ch = ' ' || ch = '\t' || ch = '\n' || ch = '\r'

/-- Accepted text is not accepted any more with something else behind it. -/
def RejectsTrailing : Prop :=
  ∀ t a x, c.parse t = some a → x.toList.all isJsonSpace = false → c.parse (t ++ x) = none

/-- What makes a codec fit for one record a line. -/
structure LineFormat : Prop where
  roundTrips : c.RoundTrips
  oneLine : c.OneLine
  braced : c.Braced

variable {c}

theorem RoundTrips.text_inj (h : c.RoundTrips) {a b : α} (same : c.text a = c.text b) : a = b :=
  Option.some.inj (by rw [← h a, ← h b, same])

theorem Braced.toList (h : c.Braced) (a : α) : ∃ body, (c.text a).toList = '{' :: body ++ ['}'] := by
  obtain ⟨body, same⟩ := h a
  exact ⟨body.toList, by rw [same, String.toList_append, String.toList_append]; rfl⟩

theorem Braced.ne_empty (h : c.Braced) (a : α) : c.text a ≠ "" := by
  obtain ⟨body, same⟩ := h.toList a
  intro empty
  rw [empty] at same
  cases same

theorem Braced.not_space (h : c.Braced) (a : α) : (c.text a).toList.all isJsonSpace = false := by
  obtain ⟨body, same⟩ := h.toList a
  rw [same]
  rfl

theorem Braced.begin (h : c.Braced) {a : α} {t u : String} (same : c.text a = t ++ u)
    (begun : t ≠ "") : ∃ rest, t.toList = '{' :: rest := by
  obtain ⟨body, braced⟩ := h.toList a
  rw [same, String.toList_append] at braced
  cases chars : t.toList with
  | nil => exact absurd (String.toList_eq_nil_iff.mp chars) begun
  | cons ch rest =>
      rw [chars] at braced
      exact ⟨rest, by rw [(List.cons.inj braced).1]⟩

section Line
open Lines Utf8

/-- What `writeln!` hands to a file. -/
def line (c : Codec α) (a : α) : Bytes := utf8 (c.text a) ++ [10]

theorem LineFormat.lines_line (format : c.LineFormat) (bs : Bytes) (a : α) (rest : Bytes) :
    lines (bs ++ c.line a ++ rest) =
      lines (closed bs) ++ decode (tail bs ++ utf8 (c.text a)) :: lines rest := by
  have clean : (10 : UInt8) ∉ tail bs ++ utf8 (c.text a) := by
    rw [List.mem_append, newline_mem_utf8]
    exact not_or_intro (tail_clean bs) (format.oneLine a)
  have bare : (tail bs ++ utf8 (c.text a)).getLast? ≠ some 13 := by
    obtain ⟨body, same⟩ := format.braced a
    rw [same, utf8_append, ← List.append_assoc, show utf8 "\x7d" = [125] from rfl,
      List.getLast?_concat]
    decide
  have pieces : bs ++ c.line a ++ rest = closed bs ++ (tail bs ++ utf8 (c.text a) ++ 10 :: rest) := by
    conv_lhs => rw [← closed_append_tail bs]
    simp only [line, List.append_assoc, List.singleton_append]
  rw [pieces, lines_append (closed_terminated bs), Lines.lines_line clean bare]

theorem LineFormat.lines_flatMap (format : c.LineFormat) (as : List α) :
    lines (as.flatMap c.line) = as.map fun a => some (c.text a) := by
  induction as with
  | nil => rfl
  | cons a as ih =>
      have first := format.lines_line [] a (as.flatMap c.line)
      rw [List.nil_append, tail_of_terminated (.inl rfl), closed_of_terminated (.inl rfl), lines_nil,
        List.nil_append, List.nil_append, decode_utf8, ih] at first
      rw [List.flatMap_cons, first, List.map_cons]

/-- The records of a file, one a line; `none` if a line is not a record. -/
def readLines (c : Codec α) (bs : Bytes) : Option (List α) := (lines bs).mapM (·.bind c.parse)

theorem LineFormat.readLines_flatMap (format : c.LineFormat) (as : List α) :
    c.readLines (as.flatMap c.line) = some as := by
  rw [readLines, format.lines_flatMap]
  induction as with
  | nil => rfl
  | cons a as ih => rw [List.map_cons, List.mapM_cons, Option.bind_some, format.roundTrips, ih]; rfl

end Line

/-- What follows accepted text and is printed by the codec makes it unacceptable. -/
theorem RejectsTrailing.concat (h : c.RejectsTrailing) (braced : c.Braced) {t : String} {a : α}
    (accepted : c.parse t = some a) (b : α) : c.parse (t ++ c.text b) = none :=
  h t a _ accepted (braced.not_space b)

end Codec

/-- The byte side of `serde_json`: `to_vec` and `from_slice`. -/
structure ByteCodec (α : Type*) where
  toVec : α → Utf8.Bytes
  fromSlice : Utf8.Bytes → Option α

namespace ByteCodec
variable {α : Type*} (c : ByteCodec α)

def RoundTrips : Prop := ∀ a, c.fromSlice (c.toVec a) = some a

/-- Bytes that break off are not accepted, no bytes at all included. -/
def RejectsPrefixes : Prop := ∀ a p q, c.toVec a = p ++ q → q ≠ [] → c.fromSlice p = none

variable {c}

theorem fromSlice_begun (trip : c.RoundTrips) (prefixes : c.RejectsPrefixes) {a b : α}
    {p : Utf8.Bytes} (begun : p <+: c.toVec a) (read : c.fromSlice p = some b) : b = a := by
  obtain ⟨q, same⟩ := begun
  cases q with
  | nil =>
      rw [List.append_nil] at same
      rw [same, trip a] at read
      exact (Option.some.inj read).symm
  | cons byte q =>
      rw [prefixes a p (byte :: q) same.symm (List.cons_ne_nil _ _)] at read
      cases read

end ByteCodec
