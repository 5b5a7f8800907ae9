/-
The SHA-256 digest of a text's UTF-8 bytes, the fingerprint by which a document's version is known.

Main statement: `schedule_length` (a block yields one word for each of the sixty-four rounds).
-/
import EndpointSurvey.Text.Utf8

namespace EndpointSurvey.Digest

/-- the sixty-four round constants -/
def roundConstants : List UInt32 :=
  [0x428a2f98, 0x71374491, 0xb5c0fbcf, 0xe9b5dba5, 0x3956c25b, 0x59f111f1, 0x923f82a4, 0xab1c5ed5,
   0xd807aa98, 0x12835b01, 0x243185be, 0x550c7dc3, 0x72be5d74, 0x80deb1fe, 0x9bdc06a7, 0xc19bf174,
   0xe49b69c1, 0xefbe4786, 0x0fc19dc6, 0x240ca1cc, 0x2de92c6f, 0x4a7484aa, 0x5cb0a9dc, 0x76f988da,
   0x983e5152, 0xa831c66d, 0xb00327c8, 0xbf597fc7, 0xc6e00bf3, 0xd5a79147, 0x06ca6351, 0x14292967,
   0x27b70a85, 0x2e1b2138, 0x4d2c6dfc, 0x53380d13, 0x650a7354, 0x766a0abb, 0x81c2c92e, 0x92722c85,
   0xa2bfe8a1, 0xa81a664b, 0xc24b8b70, 0xc76c51a3, 0xd192e819, 0xd6990624, 0xf40e3585, 0x106aa070,
   0x19a4c116, 0x1e376c08, 0x2748774c, 0x34b0bcb5, 0x391c0cb3, 0x4ed8aa4a, 0x5b9cca4f, 0x682e6ff3,
   0x748f82ee, 0x78a5636f, 0x84c87814, 0x8cc70208, 0x90befffa, 0xa4506ceb, 0xbef9a3f7, 0xc67178f2]

/-- the eight chaining words -/
structure State where
  a : UInt32
  b : UInt32
  c : UInt32
  d : UInt32
  e : UInt32
  f : UInt32
  g : UInt32
  h : UInt32

def initial : State :=
  ⟨0x6a09e667, 0xbb67ae85, 0x3c6ef372, 0xa54ff53a, 0x510e527f, 0x9b05688c, 0x1f83d9ab, 0x5be0cd19⟩

def rotateRight (x : UInt32) (n : UInt32) : UInt32 := (x >>> n) ||| (x <<< (32 - n))

/-- four bytes as a word, the highest first -/
def wordsOf : List UInt8 → List UInt32
  | a :: b :: c :: d :: rest =>
    ((a.toUInt32 <<< 24) ||| (b.toUInt32 <<< 16) ||| (c.toUInt32 <<< 8) ||| d.toUInt32) :: wordsOf rest
  | _ => []

/-- the next word of a schedule whose last sixteen words are given, oldest first -/
def nextWord (last : List UInt32) : UInt32 :=
  let w := fun i => last.getD i 0
  let s0 := rotateRight (w 1) 7 ^^^ rotateRight (w 1) 18 ^^^ (w 1 >>> 3)
  let s1 := rotateRight (w 14) 17 ^^^ rotateRight (w 14) 19 ^^^ (w 14 >>> 10)
  w 0 + s0 + w 9 + s1

/-- `count` more words of a schedule after the given sixteen -/
def extend (last : List UInt32) : Nat → List UInt32
  | 0 => last
  | count + 1 => (last.take 1) ++ extend (last.drop 1 ++ [nextWord last]) count

/-- the words of all rounds for one block of sixteen words -/
def schedule (block : List UInt32) : List UInt32 := extend block 48

theorem extend_length (last : List UInt32) (count : Nat) (h : 0 < last.length) :
    (extend last count).length = last.length + count := by
  induction count generalizing last with
  | zero => rfl
  | succ count ih =>
    have : 0 < (last.drop 1 ++ [nextWord last]).length := by simp
    simp only [extend, List.length_append, List.length_take, ih _ this, List.length_drop, List.length_cons,
      List.length_nil]
    omega

theorem schedule_length (block : List UInt32) (h : block.length = 16) : (schedule block).length = 64 := by
  rw [schedule, extend_length _ _ (by omega), h]

/-- one round with its constant and its word -/
def round (s : State) (constant word : UInt32) : State :=
  let s1 := rotateRight s.e 6 ^^^ rotateRight s.e 11 ^^^ rotateRight s.e 25
  let choice := (s.e &&& s.f) ^^^ (~~~s.e &&& s.g)
  let t1 := s.h + s1 + choice + constant + word
  let s0 := rotateRight s.a 2 ^^^ rotateRight s.a 13 ^^^ rotateRight s.a 22
  let majority := (s.a &&& s.b) ^^^ (s.a &&& s.c) ^^^ (s.b &&& s.c)
  ⟨t1 + (s0 + majority), s.a, s.b, s.c, s.d + t1, s.e, s.f, s.g⟩

/-- takes one block into the chaining words -/
def compress (s : State) (block : List UInt32) : State :=
  let t := (roundConstants.zip (schedule block)).foldl (fun t (k, w) => round t k w) s
  ⟨s.a + t.a, s.b + t.b, s.c + t.c, s.d + t.d, s.e + t.e, s.f + t.f, s.g + t.g, s.h + t.h⟩

/-- a message filled up to whole blocks: a one bit, zeros, and its length in bits as eight bytes -/
def pad (message : List UInt8) : List UInt8 :=
  let size := message.length
  let zeros := (119 - size % 64) % 64
  message ++ 0x80 :: List.replicate zeros 0 ++
    (List.range 8).map fun i => UInt8.ofNat (size * 8 / Nat.pow 256 (7 - i))

/-- cuts a list into pieces of sixteen -/
def blocks (ws : List UInt32) : List (List UInt32) :=
  match ws with
  | [] => []
  | w :: rest => (w :: rest.take 15) :: blocks (rest.drop 15)
  termination_by ws.length
  decreasing_by simp only [List.length_drop, List.length_cons]; omega

def sha256 (message : List UInt8) : State := (blocks (wordsOf (pad message))).foldl compress initial

/-- a word as eight hexadecimal digits -/
def hexWord (w : UInt32) : Text :=
  let digits := Nat.toDigits 16 w.toNat
  List.replicate (8 - digits.length) '0' ++ digits

/-- the fingerprint of a document: its digest in sixty-four hexadecimal digits -/
def fingerprint (t : Text) : Text :=
  let s := sha256 (Utf8.encode t)
  [s.a, s.b, s.c, s.d, s.e, s.f, s.g, s.h].flatMap hexWord

end EndpointSurvey.Digest
