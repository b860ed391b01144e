import KaiOs.Lib.Utf8
import Mathlib.Algebra.Group.Nat.Defs

/-! `network/src/transport.rs` and `network/src/tcp.rs`: frames with a length in front,
and the peer that reads them from a stream. -/
namespace KaiOs.Network
open Utf8

inductive TransportError where
  | incomplete (expected available : ℕ)
  | oversized (declared limit : ℕ)
  deriving DecidableEq

def maxFrame : ℕ := 4 * 1024 * 1024

/-- `(n as u32).to_be_bytes()`: the upper bits of a longer length are cut off. -/
def beBytes (n : ℕ) : Bytes :=
  [UInt8.ofNat (n / 2 ^ 24), UInt8.ofNat (n / 2 ^ 16), UInt8.ofNat (n / 2 ^ 8), UInt8.ofNat n]

def fromBeBytes (a b c d : UInt8) : ℕ :=
  ((a.toNat * 256 + b.toNat) * 256 + c.toNat) * 256 + d.toNat

def frame (payload : Bytes) : Bytes := beBytes payload.length ++ payload

def parseFrame : Bytes → Except TransportError (Bytes × ℕ)
  | a :: b :: c :: d :: rest =>
      let declared := fromBeBytes a b c d
      if declared > maxFrame then .error (.oversized declared maxFrame)
      else if rest.length < declared then .error (.incomplete (4 + declared) (4 + rest.length))
      else .ok (rest.take declared, 4 + declared)
  | buf => .error (.incomplete 4 buf.length)

inductive TcpError where
  | io
  | frame (e : TransportError)
  | closedMidFrame
  deriving DecidableEq

/-- How the writes of a frame end. -/
inductive SendIo where
  | ok
  | fails (written : ℕ)
  deriving DecidableEq

/-- `send`, with the bytes it puts on the stream. -/
def send (payload : Bytes) : SendIo → Bytes × Except TcpError Unit
  | .ok => (frame payload, .ok ())
  | .fails written => ((frame payload).take written, .error .io)

/-- What the reads of a stream return until it fails or ends. `none` is a read error, for
instance the timeout; the end of the list is the end of the stream. -/
abbrev Incoming := List (Option Bytes)

/-- The loop of `receive`: the frame, and the buffer and the stream it leaves. An empty
read is the end of the stream. -/
def receive (buf : Bytes) : Incoming → Except TcpError (Bytes × Bytes × Incoming)
  | [] => match parseFrame buf with
    | .ok (payload, consumed) => .ok (payload, buf.drop consumed, [])
    | .error _ => .error .closedMidFrame
  | read :: more => match parseFrame buf with
    | .ok (payload, consumed) => .ok (payload, buf.drop consumed, read :: more)
    | .error _ => match read with
      | none => .error .io
      | some chunk =>
          if chunk.isEmpty then .error .closedMidFrame
          else match parseFrame (buf ++ chunk) with
            | .error (.oversized declared limit) => .error (.frame (.oversized declared limit))
            | _ => receive (buf ++ chunk) more

/-- The bytes a stream has delivered. -/
def delivered (reads : Incoming) : Bytes := reads.flatMap fun read => read.getD []

theorem delivered_one (chunk : Bytes) : delivered [some chunk] <+: chunk :=
  ⟨[], by simp [delivered]⟩

theorem fromBeBytes_beBytes (n : ℕ) :
    fromBeBytes (UInt8.ofNat (n / 2 ^ 24)) (UInt8.ofNat (n / 2 ^ 16)) (UInt8.ofNat (n / 2 ^ 8))
      (UInt8.ofNat n) = n % 2 ^ 32 := by
  simp only [fromBeBytes, UInt8.toNat_ofNat']
  omega

theorem parseFrame_spec {buf payload : Bytes} {consumed : ℕ} (h : parseFrame buf = .ok (payload, consumed)) :
    ∃ a b c d rest, buf = a :: b :: c :: d :: rest ∧ fromBeBytes a b c d ≤ maxFrame ∧
      fromBeBytes a b c d ≤ rest.length ∧ payload = rest.take (fromBeBytes a b c d) ∧
      consumed = 4 + fromBeBytes a b c d := by
  match buf with
  | a :: b :: c :: d :: rest =>
      simp only [parseFrame] at h
      split_ifs at h with oversized short
      cases h
      exact ⟨a, b, c, d, rest, rfl, Nat.le_of_not_lt oversized, Nat.le_of_not_lt short, rfl, rfl⟩
  | [] => cases h
  | [_] => cases h
  | [_, _] => cases h
  | [_, _, _] => cases h

theorem parseFrame_append {buf payload : Bytes} {consumed : ℕ}
    (h : parseFrame buf = .ok (payload, consumed)) (more : Bytes) :
    parseFrame (buf ++ more) = .ok (payload, consumed) := by
  obtain ⟨a, b, c, d, rest, rfl, sized, complete, rfl, rfl⟩ := parseFrame_spec h
  have enough : ¬ (rest ++ more).length < fromBeBytes a b c d := by
    rw [List.length_append]
    omega
  simp only [List.cons_append, parseFrame, if_neg (Nat.not_lt_of_le sized), if_neg enough,
    List.take_append_of_le_length complete]

/-- What is parsed from a frame begins the payload: all of it, unless the length was cut. -/
theorem parseFrame_frame {payload out : Bytes} {consumed : ℕ}
    (h : parseFrame (frame payload) = .ok (out, consumed)) : out <+: payload := by
  simp only [frame, beBytes, List.cons_append, List.nil_append, parseFrame] at h
  split_ifs at h with oversized short
  cases h
  exact List.take_prefix _ _

theorem parseFrame_small {payload : Bytes} (small : payload.length ≤ maxFrame) :
    parseFrame (frame payload) = .ok (payload, 4 + payload.length) := by
  have declared : payload.length % 2 ^ 32 = payload.length :=
    Nat.mod_eq_of_lt (Nat.lt_of_le_of_lt small (by decide))
  simp only [frame, beBytes, List.cons_append, List.nil_append, parseFrame, fromBeBytes_beBytes,
    declared, if_neg (Nat.not_lt_of_le small), Nat.lt_irrefl, ↓reduceIte, List.take_length]

theorem send_begins (payload : Bytes) (io : SendIo) : (send payload io).1 <+: frame payload := by
  cases io with
  | ok => exact List.prefix_rfl
  | fails written => exact List.take_prefix _ _

theorem receive_of_parsed {buf payload : Bytes} {consumed : ℕ}
    (parsed : parseFrame buf = .ok (payload, consumed)) (reads : Incoming) :
    receive buf reads = .ok (payload, buf.drop consumed, reads) := by
  cases reads with
  | nil => simp only [receive, parsed]
  | cons read more => simp only [receive, parsed]

theorem receive_parses {buf payload left : Bytes} {reads more : Incoming}
    (h : receive buf reads = .ok (payload, left, more)) :
    ∃ consumed, parseFrame (buf ++ delivered reads) = .ok (payload, consumed) := by
  induction reads generalizing buf with
  | nil =>
      cases parsed : parseFrame buf with
      | ok found =>
          rw [receive_of_parsed parsed] at h
          cases h
          exact ⟨found.2, parseFrame_append parsed _⟩
      | error e =>
          rw [receive, parsed] at h
          cases h
  | cons read reads ih =>
      cases parsed : parseFrame buf with
      | ok found =>
          rw [receive_of_parsed parsed] at h
          cases h
          exact ⟨found.2, parseFrame_append parsed _⟩
      | error e =>
          unfold receive at h
          rw [parsed] at h
          cases read with
          | none => cases h
          | some chunk =>
              simp only at h
              split_ifs at h
              have bytes : buf ++ delivered (some chunk :: reads) =
                  buf ++ chunk ++ delivered reads := by
                rw [delivered, List.flatMap_cons, List.append_assoc]
                rfl
              rw [bytes]
              split at h
              · cases h
              · exact ih h

theorem receive_begins {payload out left : Bytes} {reads more : Incoming}
    (arrived : delivered reads <+: frame payload) (h : receive [] reads = .ok (out, left, more)) :
    out <+: payload := by
  obtain ⟨consumed, parsed⟩ := receive_parses h
  obtain ⟨rest, same⟩ := arrived
  have whole := parseFrame_append parsed rest
  rw [List.nil_append, same] at whole
  exact parseFrame_frame whole

theorem delivered_of_receive {out left : Bytes} {reads more : Incoming}
    (h : receive [] reads = .ok (out, left, more)) : delivered reads ≠ [] := by
  obtain ⟨consumed, parsed⟩ := receive_parses h
  intro nothing
  rw [nothing] at parsed
  cases parsed

theorem receive_frame {payload : Bytes} (small : payload.length ≤ maxFrame) :
    receive [] [some (frame payload)] = .ok (payload, [], []) := by
  have begun : (frame payload).isEmpty = false := rfl
  have waiting : parseFrame [] = .error (.incomplete 4 0) := rfl
  have whole : (frame payload).length = 4 + payload.length := by
    simp only [frame, beBytes, List.length_append, List.length_cons, List.length_nil]
  have leftover := List.drop_eq_nil_of_le (Nat.le_of_eq whole)
  simp only [receive, waiting, begun, Bool.false_eq_true, ↓reduceIte, List.nil_append,
    parseFrame_small small, leftover]

end KaiOs.Network
