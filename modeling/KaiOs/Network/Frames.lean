import KaiOs.Network.Transport

/-! Frames one after the other on a stream, `network/src/tcp.rs`. However the stream is cut
into reads, the calls of `receive` return the payloads that were framed. -/
namespace KaiOs.Network
open Utf8

/-- Calls of `receive` on one peer: what they return, and the buffer and the stream they leave. -/
def receives (count : ℕ) (buf : Bytes) (reads : Incoming) : Except TcpError (List Bytes × Bytes × Incoming) :=
  match count with
  | 0 => .ok ([], buf, reads)
  | count + 1 => match receive buf reads with
    | .error e => .error e
    | .ok (payload, buf', reads') => match receives count buf' reads' with
      | .error e => .error e
      | .ok (payloads, left, more) => .ok (payload :: payloads, left, more)

theorem frame_length (payload : Bytes) : (frame payload).length = 4 + payload.length := by
  simp only [frame, beBytes, List.length_append, List.length_cons, List.length_nil]

theorem parseFrame_consumed {buf payload : Bytes} {consumed : ℕ}
    (h : parseFrame buf = .ok (payload, consumed)) : consumed ≤ buf.length := by
  obtain ⟨a, b, c, d, rest, rfl, -, complete, -, rfl⟩ := parseFrame_spec h
  simp only [List.length_cons]
  omega

theorem parseFrame_oversized {buf : Bytes} {declared limit : ℕ}
    (h : parseFrame buf = .error (.oversized declared limit)) (more : Bytes) :
    parseFrame (buf ++ more) = .error (.oversized declared limit) := by
  match buf with
  | a :: b :: c :: d :: rest =>
      simp only [parseFrame] at h
      split_ifs at h with oversized short
      · cases h
        simp only [List.cons_append, parseFrame, if_pos oversized]
      · cases h
  | [] => cases h
  | [_] => cases h
  | [_, _] => cases h
  | [_, _, _] => cases h

theorem receive_more {buf chunk : Bytes} {e : TransportError} (waiting : parseFrame buf = .error e)
    (filled : chunk ≠ [])
    (sized : ∀ declared limit, parseFrame (buf ++ chunk) ≠ .error (.oversized declared limit))
    (more : Incoming) : receive buf (some chunk :: more) = receive (buf ++ chunk) more := by
  have read : chunk.isEmpty = false := by simpa using filled
  rw [receive, waiting]
  simp only [read, Bool.false_eq_true, ↓reduceIte]

section Stream
variable {buf payload rest : Bytes} (small : payload.length ≤ maxFrame)
include small

theorem parseFrame_stream : parseFrame (frame payload ++ rest) = .ok (payload, 4 + payload.length) :=
  parseFrame_append (parseFrame_small small) rest

theorem parseFrame_first {out : Bytes} {consumed : ℕ} (later : Bytes)
    (stream : buf ++ later = frame payload ++ rest)
    (h : parseFrame buf = .ok (out, consumed)) : out = payload ∧ buf = frame payload ++ buf.drop consumed := by
  have whole := parseFrame_append h later
  rw [stream, parseFrame_stream small] at whole
  cases whole
  have enough := parseFrame_consumed h
  refine ⟨rfl, ?_⟩
  have front := congrArg (List.take (4 + payload.length)) stream
  rw [List.take_append_of_le_length enough, List.take_left' (frame_length payload)] at front
  rw [← front, List.take_append_drop]

/-- One call: it reads as far as the first frame needs and keeps what it has read beyond it. -/
theorem receive_first {chunks : List Bytes} (full : ∀ chunk ∈ chunks, chunk ≠ [])
    (stream : buf ++ chunks.flatten = frame payload ++ rest) :
    ∃ taken unread left, chunks = taken ++ unread ∧ buf ++ taken.flatten = frame payload ++ left ∧
      receive buf (chunks.map some) = .ok (payload, left, unread.map some) := by
  induction chunks generalizing buf with
  | nil =>
      rw [List.flatten_nil, List.append_nil] at stream
      have parsed : parseFrame buf = .ok (payload, 4 + payload.length) := by
        rw [stream]
        exact parseFrame_stream small
      have first := (parseFrame_first small [] (by rw [List.append_nil, stream]) parsed).2
      refine ⟨[], [], buf.drop (4 + payload.length), rfl, by simpa using first, ?_⟩
      exact receive_of_parsed parsed []
  | cons chunk chunks ih =>
      cases parsed : parseFrame buf with
      | ok found =>
          obtain ⟨out, consumed⟩ := found
          obtain ⟨rfl, first⟩ := parseFrame_first small _ stream parsed
          exact ⟨[], chunk :: chunks, buf.drop consumed, rfl, by simpa using first, receive_of_parsed parsed _⟩
      | error e =>
          rw [List.flatten_cons, ← List.append_assoc] at stream
          obtain ⟨taken, unread, left, split, bytes, received⟩ :=
            ih (fun c member => full c (List.mem_cons_of_mem chunk member)) stream
          have sized (declared limit : ℕ) :
              parseFrame (buf ++ chunk) ≠ .error (.oversized declared limit) := by
            intro oversized
            have whole := parseFrame_oversized oversized chunks.flatten
            rw [stream, parseFrame_stream small] at whole
            cases whole
          refine ⟨chunk :: taken, unread, left, by rw [split, List.cons_append], ?_, ?_⟩
          · rw [List.flatten_cons, ← List.append_assoc, bytes]
          · rw [List.map_cons, receive_more parsed (full chunk List.mem_cons_self) sized]
            exact received

end Stream

theorem receives_stream {payloads : List Bytes} (small : ∀ p ∈ payloads, p.length ≤ maxFrame)
    {buf rest : Bytes} {chunks : List Bytes} (full : ∀ chunk ∈ chunks, chunk ≠ [])
    (stream : buf ++ chunks.flatten = (payloads.map frame).flatten ++ rest) :
    ∃ taken unread left, chunks = taken ++ unread ∧
      buf ++ taken.flatten = (payloads.map frame).flatten ++ left ∧
      receives payloads.length buf (chunks.map some) = .ok (payloads, left, unread.map some) := by
  induction payloads generalizing buf chunks with
  | nil => exact ⟨[], chunks, buf, rfl, by simp, rfl⟩
  | cons payload payloads ih =>
      rw [List.map_cons, List.flatten_cons, List.append_assoc] at stream
      obtain ⟨taken, unread, left, rfl, bytes, received⟩ :=
        receive_first (small payload List.mem_cons_self) full stream
      rw [List.flatten_append, ← List.append_assoc, bytes, List.append_assoc] at stream
      obtain ⟨taken', unread', left', rfl, bytes', received'⟩ :=
        ih (fun p member => small p (List.mem_cons_of_mem payload member))
          (fun chunk member => full chunk (List.mem_append_right taken member))
          (List.append_cancel_left stream)
      refine ⟨taken ++ taken', unread', left', (List.append_assoc ..).symm, ?_, ?_⟩
      · rw [List.flatten_append, ← List.append_assoc, bytes, List.append_assoc, bytes', List.map_cons,
          List.flatten_cons, List.append_assoc]
      · simp only [List.length_cons, receives, received, received']

/-- The calls return the framed payloads in order; after each of them the buffer holds what
has been read beyond the returned frames. -/
theorem receives_frames {payloads chunks : List Bytes} (small : ∀ p ∈ payloads, p.length ≤ maxFrame)
    (full : ∀ chunk ∈ chunks, chunk ≠ []) (stream : chunks.flatten = (payloads.map frame).flatten)
    {count : ℕ} (within : count ≤ payloads.length) :
    ∃ taken unread left, chunks = taken ++ unread ∧
      receives count [] (chunks.map some) = .ok (payloads.take count, left, unread.map some) ∧
      taken.flatten = ((payloads.take count).map frame).flatten ++ left := by
  have parts : [] ++ chunks.flatten = ((payloads.take count).map frame).flatten ++
      ((payloads.drop count).map frame).flatten := by
    rw [List.nil_append, stream, ← List.flatten_append, ← List.map_append, List.take_append_drop]
  obtain ⟨taken, unread, left, split, bytes, received⟩ :=
    receives_stream (fun p member => small p (List.mem_of_mem_take member)) full parts
  rw [List.length_take_of_le within] at received
  exact ⟨taken, unread, left, split, received, by rw [← bytes, List.nil_append]⟩

/-- The end of one frame, an empty one and the start of the next arrive together. -/
theorem receives_cut :
    ∃ taken unread left, [[0, 0], [0, 1, 97, 0, 0, 0, 0, 0], [0, 0, 1], [98]] = taken ++ unread ∧
      receives 2 [] ([[0, 0], [0, 1, 97, 0, 0, 0, 0, 0], [0, 0, 1], [98]].map some) =
        .ok ([[97], []], left, unread.map some) ∧
      taken.flatten = (([[97], []] : List Bytes).map frame).flatten ++ left := by
  have small : ∀ p ∈ ([[97], [], [98]] : List Bytes), p.length ≤ maxFrame := by decide
  exact receives_frames small (by decide) (by decide) (by decide)

end KaiOs.Network
