import KaiOs.Lib.Fields
import KaiOs.Lib.Utf8
import Mathlib.Data.List.Nodup
import Mathlib.Data.Set.Function

/-! SHA-256 of a text's bytes, in lowercase hex. Words are natural numbers below `2 ^ 32`. -/
namespace Sha256

def add (x y : ℕ) : ℕ := (x + y) % 0x100000000

def rotr (n x : ℕ) : ℕ := (x >>> n) ||| ((x <<< (32 - n)) % 0x100000000)

def roundConstants : List ℕ := [
  0x428a2f98, 0x71374491, 0xb5c0fbcf, 0xe9b5dba5, 0x3956c25b, 0x59f111f1, 0x923f82a4, 0xab1c5ed5,
  0xd807aa98, 0x12835b01, 0x243185be, 0x550c7dc3, 0x72be5d74, 0x80deb1fe, 0x9bdc06a7, 0xc19bf174,
  0xe49b69c1, 0xefbe4786, 0x0fc19dc6, 0x240ca1cc, 0x2de92c6f, 0x4a7484aa, 0x5cb0a9dc, 0x76f988da,
  0x983e5152, 0xa831c66d, 0xb00327c8, 0xbf597fc7, 0xc6e00bf3, 0xd5a79147, 0x06ca6351, 0x14292967,
  0x27b70a85, 0x2e1b2138, 0x4d2c6dfc, 0x53380d13, 0x650a7354, 0x766a0abb, 0x81c2c92e, 0x92722c85,
  0xa2bfe8a1, 0xa81a664b, 0xc24b8b70, 0xc76c51a3, 0xd192e819, 0xd6990624, 0xf40e3585, 0x106aa070,
  0x19a4c116, 0x1e376c08, 0x2748774c, 0x34b0bcb5, 0x391c0cb3, 0x4ed8aa4a, 0x5b9cca4f, 0x682e6ff3,
  0x748f82ee, 0x78a5636f, 0x84c87814, 0x8cc70208, 0x90befffa, 0xa4506ceb, 0xbef9a3f7, 0xc67178f2]

def initial : List ℕ := [0x6a09e667, 0xbb67ae85, 0x3c6ef372, 0xa54ff53a,
  0x510e527f, 0x9b05688c, 0x1f83d9ab, 0x5be0cd19]

/-- The first `count` pieces of `size` elements. -/
def pieces (size : ℕ) : ℕ → List ℕ → List (List ℕ)
  | 0, _ => []
  | count + 1, bs => bs.take size :: pieces size count (bs.drop size)

def word (bs : List ℕ) : ℕ := bs.foldl (fun acc b => acc * 256 + b) 0

/-- The message, a one bit, zeros and the length in bits, up to a multiple of 64 bytes. -/
def pad (bs : List ℕ) : List ℕ :=
  bs ++ 0x80 :: List.replicate ((119 - bs.length % 64) % 64) 0 ++
    (List.range 8).map fun i => (bs.length * 8) >>> (8 * (7 - i)) % 256

/-- The message schedule, newest word first. -/
def expand : ℕ → List ℕ → List ℕ
  | 0, ws => ws
  | count + 1, ws =>
      let w15 := ws.getD 14 0
      let w2 := ws.getD 1 0
      let s0 := rotr 7 w15 ^^^ rotr 18 w15 ^^^ (w15 >>> 3)
      let s1 := rotr 17 w2 ^^^ rotr 19 w2 ^^^ (w2 >>> 10)
      expand count (add (add (ws.getD 15 0) s0) (add (ws.getD 6 0) s1) :: ws)

def round : List ℕ → ℕ × ℕ → List ℕ
  | [a, b, c, d, e, f, g, h], (k, w) =>
      let s1 := rotr 6 e ^^^ rotr 11 e ^^^ rotr 25 e
      let choice := (e &&& f) ^^^ ((0xffffffff - e) &&& g)
      let t1 := add (add h s1) (add choice (add k w))
      let s0 := rotr 2 a ^^^ rotr 13 a ^^^ rotr 22 a
      let majority := (a &&& b) ^^^ (a &&& c) ^^^ (b &&& c)
      [add t1 (add s0 majority), a, b, c, add d t1, e, f, g]
  | state, _ => state

def compress (state block : List ℕ) : List ℕ :=
  let schedule := (expand 48 ((pieces 4 16 block).map word).reverse).reverse
  List.zipWith add state ((roundConstants.zip schedule).foldl round state)

def digest (bs : List ℕ) : List ℕ :=
  (pieces 64 ((pad bs).length / 64) (pad bs)).foldl compress initial

def hexWord (w : ℕ) : List Char := (List.range 8).map fun i => Nat.digitChar (w >>> (4 * (7 - i)) % 16)

def hex (s : String) : String :=
  String.ofList ((digest ((Utf8.utf8 s).map UInt8.toNat)).flatMap hexWord)

example : hex "abc" = "ba7816bf8f01cfea414140de5dae2223b00361a396177a9cb410ff61f20015ad" := by
  decide +kernel

/-- The digest of bytes that need not be a text. -/
def hexBytes (bs : Utf8.Bytes) : String := String.ofList ((digest (bs.map UInt8.toNat)).flatMap hexWord)

theorem free_hexBytes {c : Char} (other : ∀ n < 16, c ≠ Nat.digitChar n) (bs : Utf8.Bytes) :
    Fields.Free c (hexBytes bs) := by
  intro member
  rw [hexBytes, String.toList_ofList, List.mem_flatMap] at member
  obtain ⟨w, _, inside⟩ := member
  obtain ⟨i, _, same⟩ := List.mem_map.mp inside
  exact other _ (Nat.mod_lt _ (by decide)) same.symm

theorem free_hex {c : Char} (other : ∀ n < 16, c ≠ Nat.digitChar n) (s : String) :
    Fields.Free c (hex s) := free_hexBytes other (Utf8.utf8 s)

theorem hex_injOn {texts : List String} (distinct : (texts.map hex).Nodup) {S : Set String}
    (listed : ∀ t ∈ S, t ∈ texts) : Set.InjOn hex S := by
  intro t member u member' same
  exact List.inj_on_of_nodup_map distinct (listed t member) (listed u member') same

theorem round_length (state : List ℕ) (constant : ℕ × ℕ) : (round state constant).length = state.length := by
  unfold round
  split
  · rfl
  · rfl

theorem compress_length (state block : List ℕ) : (compress state block).length = state.length := by
  have rounds (schedule : List (ℕ × ℕ)) (s : List ℕ) : (schedule.foldl round s).length = s.length := by
    induction schedule generalizing s with
    | nil => rfl
    | cons constant schedule ih => rw [List.foldl_cons, ih, round_length]
  simp only [compress, List.length_zipWith, rounds, Nat.min_self]

theorem digest_length (bs : List ℕ) : (digest bs).length = 8 := by
  have blocks (bss : List (List ℕ)) (s : List ℕ) : (bss.foldl compress s).length = s.length := by
    induction bss generalizing s with
    | nil => rfl
    | cons block bss ih => rw [List.foldl_cons, ih, compress_length]
  exact blocks _ _

def wordBytes (w : ℕ) : Utf8.Bytes :=
  [UInt8.ofNat (w >>> 24), UInt8.ofNat (w >>> 16), UInt8.ofNat (w >>> 8), UInt8.ofNat w]

def digestBytes (bs : Utf8.Bytes) : Utf8.Bytes := (digest (bs.map UInt8.toNat)).flatMap wordBytes

theorem digestBytes_length (bs : Utf8.Bytes) : (digestBytes bs).length = 32 := by
  have word (w : ℕ) : (wordBytes w).length = 4 := rfl
  simp only [digestBytes, List.length_flatMap, word, List.map_const', digest_length]
  rfl

end Sha256
