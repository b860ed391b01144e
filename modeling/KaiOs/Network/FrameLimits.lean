import KaiOs.Network.Frames

/-! Frames beyond the limit: what is read from a stream of frames of any length, and when a header
that declares too much is refused. -/
namespace KaiOs.Network
open Utf8

/-- What repeated calls of `parse_frame` take off the front of a buffer. -/
def parseFrames : ℕ → Bytes → List Bytes
  | 0, _ => []
  | n + 1, buf => match parseFrame buf with
    | .ok (payload, consumed) => payload :: parseFrames n (buf.drop consumed)
    | .error _ => []

/-- The decoder sees the length modulo the width of the field. -/
theorem parseFrame_framed (payload rest : Bytes) :
    parseFrame (frame payload ++ rest) =
      if payload.length % 2 ^ 32 > maxFrame then .error (.oversized (payload.length % 2 ^ 32) maxFrame)
      else .ok (payload.take (payload.length % 2 ^ 32), 4 + payload.length % 2 ^ 32) := by
  have fits : payload.length % 2 ^ 32 ≤ payload.length := Nat.mod_le _ _
  have enough : ¬ (payload ++ rest).length < payload.length % 2 ^ 32 := by
    rw [List.length_append]
    omega
  simp only [frame, beBytes, List.cons_append, List.nil_append, parseFrame, fromBeBytes_beBytes, if_neg enough,
    List.take_append_of_le_length fits]

theorem parseFrames_small {payload : Bytes} (small : payload.length ≤ maxFrame) (rest : Bytes) (n : ℕ) :
    parseFrames (n + 1) (frame payload ++ rest) = payload :: parseFrames n rest := by
  rw [parseFrames, parseFrame_stream small]
  dsimp only
  rw [← frame_length, List.drop_left]

theorem parseFrames_nil (n : ℕ) : parseFrames n [] = [] := by
  cases n with
  | zero => rfl
  | succ n => rfl

theorem parseFrames_refused {payload : Bytes} (refused : maxFrame < payload.length % 2 ^ 32) (rest : Bytes)
    (n : ℕ) : parseFrames n (frame payload ++ rest) = [] := by
  cases n with
  | zero => rfl
  | succ n => rw [parseFrames, parseFrame_framed, if_pos refused]

theorem not_sent_of_cut {payload : Bytes} (large : maxFrame < payload.length)
    (taken : ¬ maxFrame < payload.length % 2 ^ 32) (rest : Bytes) (payloads : List Bytes) :
    ¬ parseFrames 1 (frame payload ++ rest) <+: payload :: payloads := by
  rw [parseFrames, parseFrame_framed, if_neg taken]
  intro sent
  have cut := congrArg List.length (List.cons_prefix_cons.mp sent).1
  rw [List.length_take] at cut
  omega

theorem sent_small_iff {payload : Bytes} (small : payload.length ≤ maxFrame) (rest : Bytes)
    (payloads : List Bytes) :
    (∀ n, parseFrames n (frame payload ++ rest) <+: payload :: payloads) ↔
      ∀ n, parseFrames n rest <+: payloads := by
  constructor
  · intro sent n
    have next := sent (n + 1)
    rw [parseFrames_small small] at next
    exact (List.cons_prefix_cons.mp next).2
  · intro sent n
    cases n with
    | zero => exact List.nil_prefix
    | succ n =>
        rw [parseFrames_small small]
        exact List.cons_prefix_cons.mpr ⟨rfl, sent n⟩

/-- From frames of any payloads nothing but a beginning of the payloads is read exactly if the first
one beyond the limit still declares a length beyond it. -/
theorem frames_decode_iff (payloads : List Bytes) :
    (∀ n, parseFrames n (payloads.map frame).flatten <+: payloads) ↔
      ∀ long, payloads.find? (fun payload => maxFrame < payload.length) = some long →
        maxFrame < long.length % 2 ^ 32 := by
  induction payloads with
  | nil =>
      refine iff_of_true (fun n => ?_) fun long found => ?_
      · simp only [List.map_nil, List.flatten_nil, parseFrames_nil, List.prefix_rfl]
      · cases found
  | cons payload payloads ih =>
      rw [List.map_cons, List.flatten_cons]
      by_cases large : maxFrame < payload.length
      · rw [List.find?_cons, decide_eq_true large]
        by_cases refused : maxFrame < payload.length % 2 ^ 32
        · refine iff_of_true (fun n => ?_) fun long found => ?_
          · rw [parseFrames_refused refused]
            exact List.nil_prefix
          · cases found
            exact refused
        · refine iff_of_false (fun sent => ?_) fun fine => refused (fine payload rfl)
          exact not_sent_of_cut large refused _ payloads (sent 1)
      · rw [List.find?_cons, decide_eq_false large, ← ih]
        exact sent_small_iff (Nat.le_of_not_lt large) _ payloads

theorem parseFrames_wrapped {payload : Bytes} (wrapped : payload.length = 2 ^ 32) :
    parseFrames 1 (frame payload) = [[]] := by
  rw [← List.append_nil (frame payload), parseFrames, parseFrame_framed, wrapped, Nat.mod_self]
  rfl

/-- Four GiB are read as an empty payload. -/
theorem four_gib_read_as_nothing :
    parseFrames 1 (frame (List.replicate (2 ^ 32) 0)) = [[]] ∧
      ¬ [[]] <+: [List.replicate (2 ^ 32) (0 : UInt8)] := by
  refine ⟨parseFrames_wrapped List.length_replicate, fun sent => ?_⟩
  have lengths := congrArg List.length (List.cons_prefix_cons.mp sent).1
  rw [List.length_replicate] at lengths
  cases lengths

theorem parseFrame_header {a b c d : UInt8} (large : maxFrame < fromBeBytes a b c d) (rest : Bytes) :
    parseFrame (a :: b :: c :: d :: rest) = .error (.oversized (fromBeBytes a b c d) maxFrame) := by
  rw [parseFrame, if_pos large]

theorem receive_oversized {buf : Bytes} {chunks : List Bytes} (full : ∀ chunk ∈ chunks, chunk ≠ [])
    (unread : chunks ≠ []) {declared limit : ℕ}
    (header : parseFrame (buf ++ chunks.flatten) = .error (.oversized declared limit)) (later : Incoming) :
    receive buf (chunks.map some ++ later) = .error (.frame (.oversized declared limit)) := by
  induction chunks generalizing buf with
  | nil => exact absurd rfl unread
  | cons chunk chunks ih =>
      rw [List.flatten_cons, ← List.append_assoc] at header
      cases waiting : parseFrame buf with
      | ok found =>
          obtain ⟨out, consumed⟩ := found
          have whole := parseFrame_append waiting (chunk ++ chunks.flatten)
          rw [← List.append_assoc, header] at whole
          cases whole
      | error e =>
          have filled : chunk.isEmpty = false := by simpa using full chunk (.head _)
          rw [List.map_cons, List.cons_append]
          by_cases complete : parseFrame (buf ++ chunk) = .error (.oversized declared limit)
          · rw [receive, waiting]
            simp only [filled, Bool.false_eq_true, ↓reduceIte, complete]
          · have sized (other bound : ℕ) : parseFrame (buf ++ chunk) ≠ .error (.oversized other bound) := by
              intro oversized
              have whole := parseFrame_oversized oversized chunks.flatten
              rw [header] at whole
              cases whole
              exact complete oversized
            have more : chunks ≠ [] := by
              rintro rfl
              rw [List.flatten_nil, List.append_nil] at header
              exact complete header
            rw [receive_more waiting (full chunk (.head _)) sized]
            exact ih (fun c member => full c (.tail _ member)) more header

/-- A declared length beyond the limit is refused without another byte exactly if some of the bytes
that have arrived are not in the buffer yet. -/
theorem oversized_refused_iff {buf : Bytes} {chunks : List Bytes} (full : ∀ chunk ∈ chunks, chunk ≠ [])
    {a b c d : UInt8} {rest : Bytes} (arrived : buf ++ chunks.flatten = a :: b :: c :: d :: rest)
    (large : maxFrame < fromBeBytes a b c d) :
    (∀ later, receive buf (chunks.map some ++ later) =
      .error (.frame (.oversized (fromBeBytes a b c d) maxFrame))) ↔ chunks ≠ [] := by
  have header : parseFrame (buf ++ chunks.flatten) = .error (.oversized (fromBeBytes a b c d) maxFrame) := by
    rw [arrived, parseFrame_header large]
  constructor
  · rintro refused rfl
    rw [List.flatten_nil, List.append_nil] at header
    have closed := refused []
    rw [List.map_nil, List.nil_append, receive, header] at closed
    cases closed
  · exact fun unread later => receive_oversized full unread header later

theorem oversized_refused_in_pieces :
    receive [0, 64] [some [0], some [1, 7]] = .error (.frame (.oversized 4194305 4194304)) := by
  have full : ∀ chunk ∈ ([[0], [1, 7]] : List Bytes), chunk ≠ [] := by decide
  have arrived : [0, 64] ++ ([[0], [1, 7]] : List Bytes).flatten = 0 :: 64 :: 0 :: 1 :: [7] := rfl
  exact (oversized_refused_iff full arrived (by decide)).mpr (by decide) []

/-- A header that came in one read with the frame before it is only found behind the next read. -/
theorem oversized_behind_frame :
    receives 1 [] [some (frame [97] ++ [0, 64, 0, 1])] = .ok ([[97]], [0, 64, 0, 1], []) ∧
    maxFrame < fromBeBytes 0 64 0 1 ∧
    receive [0, 64, 0, 1] [] = .error .closedMidFrame ∧ receive [0, 64, 0, 1] [none] = .error .io := by
  decide

end KaiOs.Network
