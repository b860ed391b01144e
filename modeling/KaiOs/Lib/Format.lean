import KaiOs.Lib.Codec

/-! Printers with the parser that undoes them. A parser reads its value from the front
of the input and hands on the rest, so formats can be put one behind the other. -/

structure Format (α : Type*) where
  print : α → List Char
  parse : List Char → Option (α × List Char)
  law : ∀ a rest, parse (print a ++ rest) = some (a, rest)

namespace Format
variable {α β : Type*}

/-- The input behind a fixed text, if it starts with that. -/
def strip : List Char → List Char → Option (List Char)
  | [], cs => some cs
  | _ :: _, [] => none
  | s :: ss, c :: cs => if s = c then strip ss cs else none

theorem strip_append (s rest : List Char) : strip s (s ++ rest) = some rest := by
  induction s with
  | nil => rfl
  | cons c s ih => rw [List.cons_append, strip, if_pos rfl, ih]

def literal (s : String) : Format Unit where
  print _ := s.toList
  parse cs := (strip s.toList cs).map fun rest => ((), rest)
  law _ rest := by rw [strip_append]; rfl

def seq (f : Format α) (g : Format β) : Format (α × β) where
  print p := f.print p.1 ++ g.print p.2
  parse cs := (f.parse cs).bind fun r => (g.parse r.2).map fun q => ((r.1, q.1), q.2)
  law p rest := by rw [List.append_assoc, f.law, Option.bind_some, g.law]; rfl

def map (f : Format α) (out : α → β) (back : β → α) (inverse : ∀ b, out (back b) = b) : Format β where
  print b := f.print (back b)
  parse cs := (f.parse cs).map fun r => (out r.1, r.2)
  law b rest := by rw [f.law, Option.map_some, inverse]

/-- A value between two fixed texts. -/
def between (left : String) (f : Format α) (right : String) : Format α :=
  map (seq (literal left) (seq f (literal right))) (fun p => p.2.1) (fun a => ((), a, ()))
    (fun _ => rfl)

/-- One of two kinds of value; the first parser refuses what the second one prints. -/
def either (f : Format α) (g : Format β)
    (apart : ∀ b rest, f.parse (g.print b ++ rest) = none) : Format (α ⊕ β) where
  print
    | .inl a => f.print a
    | .inr b => g.print b
  parse cs := match f.parse cs with
    | some r => some (.inl r.1, r.2)
    | none => (g.parse cs).map fun r => (.inr r.1, r.2)
  law v rest := by
    cases v with
    | inl a => simp only [f.law]
    | inr b => simp only [apart b rest, g.law, Option.map_some]

theorem between_print (left right : String) (f : Format α) (a : α) :
    (between left f right).print a = left.toList ++ (f.print a ++ right.toList) := rfl

/-- The texts differ at a place both of them have. -/
def apart : List Char → List Char → Bool
  | c :: s, d :: t => c != d || apart s t
  | _, _ => false

theorem strip_apart {s t : List Char} (differ : apart s t = true) (rest : List Char) :
    strip s (t ++ rest) = none := by
  induction s generalizing t with
  | nil => cases differ
  | cons c s ih =>
      cases t with
      | nil => cases differ
      | cons d t =>
          rw [List.cons_append, strip]
          split_ifs with same
          · simp only [apart, same, bne_self_eq_false, Bool.false_or] at differ
            exact ih differ
          · rfl

theorem between_apart {left right left' right' : String} {f : Format α} {g : Format β}
    (differ : apart left.toList left'.toList = true) (b : β) (rest : List Char) :
    (between left f right).parse ((between left' g right').print b ++ rest) = none := by
  rw [between_print, List.append_assoc]
  simp only [between, map, seq, literal, strip_apart differ, Option.map_none, Option.bind_none]

section Decimal

/-- A number up to the character behind it, which is no digit. -/
def decimal (stop : Char) (other : stop.isDigit = false) : Format ℕ where
  print n := Nat.toDigits 10 n ++ [stop]
  parse cs := match cs.dropWhile Char.isDigit with
    | c :: rest =>
        if c = stop then some (Nat.ofDigitChars 10 (cs.takeWhile Char.isDigit) 0, rest) else none
    | [] => none
  law n rest := by
    have digits : ∀ c ∈ Nat.toDigits 10 n, c.isDigit = true := fun c member =>
      Nat.isDigit_of_mem_toDigits (by decide) (by decide) member
    rw [List.append_assoc, List.singleton_append, List.dropWhile_append_of_pos digits,
      List.takeWhile_append_of_pos digits, List.dropWhile_cons_of_neg (by simp [other]),
      List.takeWhile_cons_of_neg (by simp [other]), List.append_nil]
    simp only [↓reduceIte, Nat.ofDigitChars_ten_toDigits]

theorem toDigits_isDigit {n : ℕ} {c : Char} (member : c ∈ Nat.toDigits 10 n) : c.isDigit = true :=
  Nat.isDigit_of_mem_toDigits (by decide) (by decide) member

theorem mem_intercalate {α : Type*} {c sep : α} {ls : List (List α)} (member : c ∈ List.intercalate [sep] ls) :
    c = sep ∨ ∃ l ∈ ls, c ∈ l := by
  induction ls with
  | nil => cases member
  | cons l ls ih =>
      cases ls with
      | nil => exact .inr ⟨l, .head _, by simpa using member⟩
      | cons m ls =>
          simp only [List.intercalate_cons_cons, List.mem_append, List.mem_singleton] at member
          obtain (here | here) | later := member
          · exact .inr ⟨l, .head _, here⟩
          · exact .inl here
          · obtain separates | ⟨l', among, inside⟩ := ih later
            · exact .inl separates
            · exact .inr ⟨l', .tail _ among, inside⟩

/-- A JSON array of numbers. -/
def numbers : Format (List ℕ) where
  print ns := '[' :: (List.intercalate [','] (ns.map (Nat.toDigits 10)) ++ [']'])
  parse
    | '[' :: cs => match cs.dropWhile (· != ']') with
      | ']' :: rest =>
          let body := cs.takeWhile (· != ']')
          some (if body = [] then [] else (body.splitOn ',').map (Nat.ofDigitChars 10 · 0), rest)
      | _ => none
    | _ => none
  law ns rest := by
    have inside : ∀ c ∈ List.intercalate [','] (ns.map (Nat.toDigits 10)), (c != ']') = true := by
      intro c member
      obtain rfl | ⟨l, among, member⟩ := mem_intercalate member
      · rfl
      · obtain ⟨n, -, rfl⟩ := List.mem_map.mp among
        rw [bne_iff_ne]
        rintro rfl
        cases toDigits_isDigit member
    rw [List.cons_append, List.append_assoc, List.singleton_append]
    simp only [List.dropWhile_append_of_pos inside, List.takeWhile_append_of_pos inside, bne_self_eq_false,
      Bool.false_eq_true, not_false_eq_true, List.dropWhile_cons_of_neg, List.takeWhile_cons_of_neg, List.append_nil]
    cases ns with
    | nil => rfl
    | cons n ns =>
        have filled : List.intercalate [','] ((n :: ns).map (Nat.toDigits 10)) ≠ [] := by
          cases ns with
          | nil => simp
          | cons m ns => simp [List.intercalate_cons_cons]
        rw [if_neg filled, List.splitOn_intercalate, List.map_map]
        · simp [Function.comp_def]
        · simp only [List.mem_map]
          rintro l ⟨m, -, rfl⟩ member
          cases toDigits_isDigit member
        · simp

end Decimal

section Quoted

/-- A character inside a JSON string, escaped the way `serde_json` does it. -/
def escape (c : Char) : List Char :=
  if c = '"' then ['\\', '"']
  else if c = '\\' then ['\\', '\\']
  else if c.toNat = 8 then ['\\', 'b']
  else if c = '\t' then ['\\', 't']
  else if c = '\n' then ['\\', 'n']
  else if c.toNat = 12 then ['\\', 'f']
  else if c = '\r' then ['\\', 'r']
  else if c.toNat < 32 then
    ['\\', 'u', '0', '0', Nat.digitChar (c.toNat / 16), Nat.digitChar (c.toNat % 16)]
  else [c]

/-- The characters the letter of a short escape may stand for. -/
def unescape (c : Char) : Char :=
  if c = 'b' then Char.ofNat 8
  else if c = 't' then '\t'
  else if c = 'n' then '\n'
  else if c = 'f' then Char.ofNat 12
  else if c = 'r' then '\r'
  else c

def hexValue (c : Char) : ℕ := if c.isDigit then c.toNat - 48 else c.toNat - 87

/-- The rest of a string behind its opening quote. -/
def unquote : List Char → Option (List Char × List Char)
  | [] => none
  | '"' :: rest => some ([], rest)
  | '\\' :: 'u' :: _ :: _ :: high :: low :: rest =>
      (unquote rest).map fun r => (Char.ofNat (hexValue high * 16 + hexValue low) :: r.1, r.2)
  | '\\' :: c :: rest => (unquote rest).map fun r => (unescape c :: r.1, r.2)
  | c :: rest => (unquote rest).map fun r => (c :: r.1, r.2)

theorem unquote_plain {c : Char} (quote : c ≠ '"') (slash : c ≠ '\\') (cs : List Char) :
    unquote (c :: cs) = (unquote cs).map fun r => (c :: r.1, r.2) := by
  rw [unquote.eq_def]
  split
  · rename_i same
    cases same
  · rename_i same
    exact absurd (List.cons.inj same).1 quote
  · rename_i same
    exact absurd (List.cons.inj same).1 slash
  · rename_i same
    exact absurd (List.cons.inj same).1 slash
  · rename_i same
    cases same
    rfl

theorem control_hex : ∀ n < 32, Char.ofNat (hexValue (Nat.digitChar (n / 16)) * 16 +
    hexValue (Nat.digitChar (n % 16))) = Char.ofNat n := by decide

/-- A character is escaped by a letter, by its number, or not at all. -/
theorem escape_cases (c : Char) :
    (∃ letter ∈ ['"', '\\', 'b', 't', 'n', 'f', 'r'], escape c = ['\\', letter] ∧ unescape letter = c) ∨
    (c.toNat < 32 ∧ escape c =
      ['\\', 'u', '0', '0', Nat.digitChar (c.toNat / 16), Nat.digitChar (c.toNat % 16)]) ∨
    (c ≠ '"' ∧ c ≠ '\\' ∧ c ≠ '\n' ∧ escape c = [c]) := by
  have named {n : ℕ} (same : c.toNat = n) : Char.ofNat n = c := by
    rw [← same, Char.ofNat_toNat]
  by_cases quote : c = '"'
  · exact .inl ⟨'"', by decide, if_pos quote, quote.symm⟩
  by_cases slash : c = '\\'
  · exact .inl ⟨'\\', by decide, by rw [escape, if_neg quote, if_pos slash], slash.symm⟩
  by_cases backspace : c.toNat = 8
  · refine .inl ⟨'b', by decide, ?_, named backspace⟩
    rw [escape, if_neg quote, if_neg slash, if_pos backspace]
  by_cases tab : c = '\t'
  · refine .inl ⟨'t', by decide, ?_, tab.symm⟩
    rw [escape, if_neg quote, if_neg slash, if_neg backspace, if_pos tab]
  by_cases newline : c = '\n'
  · refine .inl ⟨'n', by decide, ?_, newline.symm⟩
    rw [escape, if_neg quote, if_neg slash, if_neg backspace, if_neg tab, if_pos newline]
  by_cases feed : c.toNat = 12
  · refine .inl ⟨'f', by decide, ?_, named feed⟩
    rw [escape, if_neg quote, if_neg slash, if_neg backspace, if_neg tab, if_neg newline, if_pos feed]
  by_cases ret : c = '\r'
  · refine .inl ⟨'r', by decide, ?_, ret.symm⟩
    rw [escape, if_neg quote, if_neg slash, if_neg backspace, if_neg tab, if_neg newline, if_neg feed,
      if_pos ret]
  have rest : escape c = if c.toNat < 32 then
      ['\\', 'u', '0', '0', Nat.digitChar (c.toNat / 16), Nat.digitChar (c.toNat % 16)] else [c] := by
    rw [escape, if_neg quote, if_neg slash, if_neg backspace, if_neg tab, if_neg newline, if_neg feed,
      if_neg ret]
  by_cases control : c.toNat < 32
  · exact .inr (.inl ⟨control, by rw [rest, if_pos control]⟩)
  · exact .inr (.inr ⟨quote, slash, newline, by rw [rest, if_neg control]⟩)

theorem unquote_escape (c : Char) (cs : List Char) :
    unquote (escape c ++ cs) = (unquote cs).map fun r => (c :: r.1, r.2) := by
  have letter_read : ∀ letter ∈ ['"', '\\', 'b', 't', 'n', 'f', 'r'],
      unquote ('\\' :: letter :: cs) = (unquote cs).map fun r => (unescape letter :: r.1, r.2) := by
    intro letter member
    simp only [List.mem_cons, List.not_mem_nil, or_false] at member
    rcases member with rfl | rfl | rfl | rfl | rfl | rfl | rfl
    all_goals rfl
  rcases escape_cases c with ⟨letter, member, same, back⟩ | ⟨control, same⟩ | ⟨quote, slash, _, same⟩
  · rw [same, ← back]
    exact letter_read letter member
  · rw [same]
    simp only [List.cons_append, List.nil_append, unquote, control_hex _ control, Char.ofNat_toNat]
  · rw [same]
    exact unquote_plain quote slash cs

theorem unquote_string (s rest : List Char) :
    unquote (s.flatMap escape ++ '"' :: rest) = some (s, rest) := by
  induction s with
  | nil => rfl
  | cons c s ih => rw [List.flatMap_cons, List.append_assoc, unquote_escape, ih]; rfl

def string : Format String where
  print s := '"' :: (s.toList.flatMap escape ++ ['"'])
  parse
    | '"' :: cs => (unquote cs).map fun r => (String.ofList r.1, r.2)
    | _ => none
  law s rest := by
    simp only [List.cons_append, List.append_assoc, List.nil_append, unquote_string,
      Option.map_some, String.ofList_toList]

end Quoted

section Repeat
variable (f : Format α)

/-- Values behind one another, each one announced by `sep`, up to `close`. -/
def printRest (sep close : String) : List α → List Char
  | [] => close.toList
  | a :: as => sep.toList ++ (f.print a ++ printRest sep close as)

def parseRest (sep close : String) : ℕ → List Char → Option (List α × List Char)
  | 0, _ => none
  | fuel + 1, cs => match strip sep.toList cs with
    | some more => (f.parse more).bind fun r =>
        (parseRest sep close fuel r.2).map fun q => (r.1 :: q.1, q.2)
    | none => (strip close.toList cs).map fun rest => ([], rest)

variable {f}

theorem parseRest_print {sep close : String} (differ : apart sep.toList close.toList = true)
    (as : List α) (rest : List Char) {fuel : ℕ} (enough : as.length < fuel) :
    parseRest f sep close fuel (printRest f sep close as ++ rest) = some (as, rest) := by
  induction as generalizing fuel with
  | nil =>
      obtain ⟨fuel, rfl⟩ := Nat.exists_eq_succ_of_ne_zero (Nat.ne_of_gt enough)
      simp only [printRest, parseRest, strip_apart differ, strip_append, Option.map_some]
  | cons a as ih =>
      obtain ⟨fuel, rfl⟩ := Nat.exists_eq_succ_of_ne_zero (Nat.ne_of_gt (Nat.zero_lt_of_lt enough))
      have inner := ih (by simpa using enough)
      simp only [printRest, parseRest, List.append_assoc, strip_append, f.law, inner,
        Option.bind_some, Option.map_some]

theorem printRest_length {sep close : String} (differ : apart sep.toList close.toList = true)
    (as : List α) : as.length < (printRest f sep close as).length := by
  induction as with
  | nil =>
      rw [printRest, List.length_nil, List.length_pos_iff]
      intro empty
      rw [empty] at differ
      cases chars : sep.toList <;> rw [chars] at differ <;> cases differ
  | cons a as ih =>
      have solid : 0 < sep.toList.length := by
        rw [List.length_pos_iff]
        intro empty
        rw [empty] at differ
        cases differ
      simp only [printRest, List.length_append, List.length_cons]
      omega

variable (f)

/-- A list: `empty`, or `first` and the values with `sep` between them and `close` behind. -/
def list (empty first sep close : String) (begun : apart empty.toList first.toList = true)
    (differ : apart sep.toList close.toList = true) : Format (List α) where
  print
    | [] => empty.toList
    | a :: as => first.toList ++ (f.print a ++ printRest f sep close as)
  parse cs := match strip empty.toList cs with
    | some rest => some ([], rest)
    | none => (strip first.toList cs).bind fun more => (f.parse more).bind fun r =>
        (parseRest f sep close r.2.length r.2).map fun q => (r.1 :: q.1, q.2)
  law as rest := by
    cases as with
    | nil => simp only [strip_append]
    | cons a as =>
        have enough : as.length < (printRest f sep close as ++ rest).length := by
          rw [List.length_append]
          exact Nat.lt_add_right _ (printRest_length differ as)
        simp only [List.append_assoc, strip_apart begun, strip_append, f.law, Option.bind_some,
          parseRest_print differ as rest enough, Option.map_some]

end Repeat

section Top
variable (f : Format α)

/-- The codec of a format. It accepts what the format prints and nothing else. -/
def codec : Codec α where
  text a := String.ofList (f.print a)
  parse s := match f.parse s.toList with
    | some (a, []) => if f.print a = s.toList then some a else none
    | _ => none

variable {f}

theorem codec_parse_iff {s : String} {a : α} : f.codec.parse s = some a ↔ s = f.codec.text a := by
  constructor
  · intro parsed
    simp only [codec] at parsed
    split at parsed
    · split_ifs at parsed with same
      cases parsed
      simp only [codec, same, String.ofList_toList]
    · cases parsed
  · rintro rfl
    have read := f.law a []
    rw [List.append_nil] at read
    simp only [codec, String.toList_ofList, read, ↓reduceIte]

theorem codec_roundTrips : f.codec.RoundTrips := fun _ => codec_parse_iff.mpr rfl

theorem print_append {a b : α} {rest : List Char} (same : f.print a ++ rest = f.print b) :
    rest = [] := by
  have read := f.law a rest
  have whole := f.law b []
  rw [List.append_nil] at whole
  rw [same, whole] at read
  cases read
  rfl

theorem codec_rejectsPrefixes : f.codec.RejectsPrefixes := by
  intro b p q same _ more
  cases parsed : f.codec.parse p with
  | none => rfl
  | some a =>
      rw [codec_parse_iff.mp parsed] at same
      have chars := congrArg String.toList same
      simp only [codec, String.toList_append, String.toList_ofList] at chars
      exact absurd (String.toList_eq_nil_iff.mp (print_append chars.symm)) more

theorem codec_rejectsTrailing : f.codec.RejectsTrailing := by
  intro t a x accepted solid
  cases parsed : f.codec.parse (t ++ x) with
  | none => rfl
  | some b =>
      have same := codec_parse_iff.mp parsed
      rw [codec_parse_iff.mp accepted] at same
      have chars := congrArg String.toList same
      simp only [codec, String.toList_append, String.toList_ofList] at chars
      rw [print_append chars] at solid
      cases solid

/-- The same over bytes. -/
def byteCodec (f : Format α) : ByteCodec α where
  toVec a := Utf8.utf8 (f.codec.text a)
  fromSlice bs := (Utf8.decode bs).bind f.codec.parse

theorem byteCodec_roundTrips : f.byteCodec.RoundTrips := by
  intro a
  simp only [byteCodec, Utf8.decode_utf8, Option.bind_some]
  exact codec_roundTrips a

theorem byteCodec_rejectsPrefixes : f.byteCodec.RejectsPrefixes := by
  intro a p q same more
  cases parsed : f.byteCodec.fromSlice p with
  | none => rfl
  | some b =>
      obtain ⟨t, decoded, read⟩ := Option.bind_eq_some_iff.mp parsed
      obtain ⟨u, text, rest⟩ := Utf8.decode_prefix same.symm decoded
      rw [codec_parse_iff.mp read] at text
      have chars := congrArg String.toList text
      simp only [codec, String.toList_append, String.toList_ofList] at chars
      rw [String.toList_eq_nil_iff.mp (print_append chars.symm), Utf8.utf8_empty] at rest
      exact absurd rest.symm more

theorem between_braced {left right l r : String} (opens : left = "\x7b" ++ l)
    (closes : right = r ++ "\x7d") : (between left f right).codec.Braced := by
  intro a
  refine ⟨l ++ (String.ofList (f.print a) ++ r), ?_⟩
  simp only [codec, between_print, opens, closes, String.ofList_append, String.ofList_toList,
    String.append_assoc]

end Top

/-- The character stands in no printed text. -/
def Avoids (f : Format α) (c : Char) : Prop := ∀ a, c ∉ f.print a

section Avoids
variable {f : Format α} {g : Format β} {c : Char}

theorem Avoids.seq (hf : f.Avoids c) (hg : g.Avoids c) : (f.seq g).Avoids c :=
  fun p => List.not_mem_append (hf p.1) (hg p.2)

theorem Avoids.map {out : α → β} {back : β → α} {inverse : ∀ b, out (back b) = b}
    (hf : f.Avoids c) : (f.map out back inverse).Avoids c := fun b => hf (back b)

theorem Avoids.between {left right : String} (hf : f.Avoids c) (hl : Fields.Free c left)
    (hr : Fields.Free c right) : (Format.between left f right).Avoids c :=
  fun a => List.not_mem_append hl (List.not_mem_append (hf a) hr)

theorem Avoids.either {apart : ∀ b rest, f.parse (g.print b ++ rest) = none} (hf : f.Avoids c)
    (hg : g.Avoids c) : (f.either g apart).Avoids c
  | .inl a => hf a
  | .inr b => hg b

theorem avoids_decimal {stop : Char} {other : stop.isDigit = false} (digit : c.isDigit = false)
    (differ : c ≠ stop) : (decimal stop other).Avoids c := by
  intro n
  refine List.not_mem_append ?_ fun member => differ (List.mem_singleton.mp member)
  intro member
  exact Fields.free_decimal digit n (Fields.decimal_toList n ▸ member)

theorem newline_not_mem_escape (c : Char) : '\n' ∉ escape c := by
  have hex : ∀ n < 32, '\n' ≠ Nat.digitChar (n / 16) ∧ '\n' ≠ Nat.digitChar (n % 16) := by decide
  have letters : ∀ letter ∈ ['"', '\\', 'b', 't', 'n', 'f', 'r'], '\n' ∉ ['\\', letter] := by simp
  rcases escape_cases c with ⟨letter, member, same, _⟩ | ⟨control, same⟩ | ⟨_, _, newline, same⟩
  · rw [same]
    exact letters letter member
  · have digits := hex _ control
    rw [same]
    simp [digits.1, digits.2]
  · rw [same]
    exact fun member => newline (List.mem_singleton.mp member).symm
theorem avoids_string : string.Avoids '\n' := by
  intro s member
  simp only [string, List.mem_cons, List.mem_append, List.mem_flatMap, List.not_mem_nil,
    or_false, Char.reduceEq, false_or] at member
  obtain ⟨c, _, inside⟩ := member
  exact newline_not_mem_escape c inside

end Avoids
end Format
