/-
UTF-8: the bytes of a text, and the text of a file's bytes. Reading a file drops one byte order mark, passes over every
byte that belongs to no well-formed character, and turns each line end (CR LF or a lone CR) into a line feed.

Main statements: `decode_encode_ascii` (a text below 128 comes back from its bytes) and `unifyLineEnds_no_cr` (no
carriage return is left).
-/
import EndpointSurvey.Text.Basic

namespace EndpointSurvey.Utf8

/-- the bytes of one character -/
def encodeChar (c : Char) : List UInt8 :=
  let n := c.toNat
  if n < 0x80 then [UInt8.ofNat n]
  else if n < 0x800 then [UInt8.ofNat (0xC0 + n / 64), UInt8.ofNat (0x80 + n % 64)]
  else if n < 0x10000 then
    [UInt8.ofNat (0xE0 + n / 4096), UInt8.ofNat (0x80 + n / 64 % 64), UInt8.ofNat (0x80 + n % 64)]
  else
    [UInt8.ofNat (0xF0 + n / 262144), UInt8.ofNat (0x80 + n / 4096 % 64), UInt8.ofNat (0x80 + n / 64 % 64),
      UInt8.ofNat (0x80 + n % 64)]

def encode (t : Text) : List UInt8 := t.flatMap encodeChar

/-- does a byte continue a character? -/
def continues (b : UInt8) : Bool := 0x80 ≤ b && b ≤ 0xBF

/-- the six low bits of a continuing byte -/
def low (b : UInt8) : Nat := b.toNat % 64

/-- may `b` follow the first byte `a` of a character of three or four bytes? -/
def second (a b : UInt8) : Bool :=
  if a == 0xE0 then 0xA0 ≤ b && b ≤ 0xBF
  else if a == 0xED then 0x80 ≤ b && b ≤ 0x9F
  else if a == 0xF0 then 0x90 ≤ b && b ≤ 0xBF
  else if a == 0xF4 then 0x80 ≤ b && b ≤ 0x8F
  else continues b

/-- the characters of the well-formed sequences among the bytes, every other byte passed over -/
def decode : List UInt8 → Text
  | [] => []
  | a :: rest =>
    if a < 0x80 then Char.ofNat a.toNat :: decode rest
    else if 0xC2 ≤ a && a ≤ 0xDF then
      match rest with
      | b :: rest' =>
        if continues b then Char.ofNat (a.toNat % 32 * 64 + low b) :: decode rest' else decode (b :: rest')
      | [] => []
    else if 0xE0 ≤ a && a ≤ 0xEF then
      match rest with
      | b :: c :: rest' =>
        if second a b && continues c then
          Char.ofNat (a.toNat % 16 * 4096 + low b * 64 + low c) :: decode rest'
        else decode (b :: c :: rest')
      | rest' => decode rest'
    else if 0xF0 ≤ a && a ≤ 0xF4 then
      match rest with
      | b :: c :: d :: rest' =>
        if second a b && continues c && continues d then
          Char.ofNat (a.toNat % 8 * 262144 + low b * 4096 + low c * 64 + low d) :: decode rest'
        else decode (b :: c :: d :: rest')
      | rest' => decode rest'
    else decode rest
  termination_by bytes => bytes.length

/-- every CR LF and every lone CR made a line feed -/
def unifyLineEnds : Text → Text
  | [] => []
  | '\r' :: '\n' :: cs => '\n' :: unifyLineEnds cs
  | '\r' :: cs => '\n' :: unifyLineEnds cs
  | c :: cs => c :: unifyLineEnds cs

/-- the text of a source file -/
def readFile (bytes : List UInt8) : Text :=
  let body := match bytes with
    | 0xEF :: 0xBB :: 0xBF :: rest => rest
    | _ => bytes
  unifyLineEnds (decode body)

theorem decode_encode_ascii (t : Text) (h : ∀ c ∈ t, c.toNat < 0x80) : decode (encode t) = t := by
  induction t with
  | nil => simp [encode, decode]
  | cons c cs ih =>
    have hc := h c (by simp)
    have step : encode (c :: cs) = UInt8.ofNat c.toNat :: encode cs := by
      simp [encode, encodeChar, hc]
    have back : (UInt8.ofNat c.toNat).toNat = c.toNat := UInt8.toNat_ofNat_of_lt (Nat.lt_trans hc (by decide))
    have small : UInt8.ofNat c.toNat < 0x80 := by
      rw [UInt8.lt_iff_toNat_lt, back]
      exact hc
    rw [step, decode.eq_def]
    simp [small, ih fun d hd => h d (by simp [hd]), back]

theorem unifyLineEnds_no_cr (t : Text) : '\r' ∉ unifyLineEnds t := by
  fun_induction unifyLineEnds t with
  | case1 => simp
  | case2 cs ih => simpa using ih
  | case3 cs _ ih => simpa using ih
  | case4 c cs _ h ih =>
    have : '\r' ≠ c := fun e => h e.symm
    simp [this, ih]

end EndpointSurvey.Utf8
