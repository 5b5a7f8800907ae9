/-
Percent-encoding: letters, digits and `_.-~` stand for themselves, every other character for the bytes of its encoding
in capital hexadecimal. In a query a space is a plus sign.

Main statements: `percentEncode_unreserved` (a text of unreserved characters stands for itself) and
`percentEncode_no_slash` (an encoded text has no slash).
-/
import EndpointSurvey.Text.Utf8

namespace EndpointSurvey.Url

def unreserved (c : Char) : Bool :=
  c.isAlphanum || c == '_' || c == '.' || c == '-' || c == '~'

/-- a capital hexadecimal digit -/
def hexDigit (n : Nat) : Char := Char.ofNat (if n < 10 then 48 + n else 55 + n)

def percentByte (b : UInt8) : Text := ['%', hexDigit (b.toNat / 16), hexDigit (b.toNat % 16)]

def encodeChar (c : Char) : Text := if unreserved c then [c] else (Utf8.encodeChar c).flatMap percentByte

/-- a text as one component of a path -/
def percentEncode (t : Text) : Text := t.flatMap encodeChar

/-- a text as a key or a value of a query -/
def formEncode (t : Text) : Text := t.flatMap fun c => if c = ' ' then ['+'] else encodeChar c

/-- the query of a list of entries -/
def writeQuery (entries : List (Text × Text)) : Text :=
  Text.join "&" (entries.map fun (key, value) => formEncode key ++ '=' :: formEncode value)

theorem percentEncode_unreserved (t : Text) (h : ∀ c ∈ t, unreserved c = true) : percentEncode t = t := by
  induction t with
  | nil => rfl
  | cons c cs ih =>
    have := ih fun d hd => h d (by simp [hd])
    simp [percentEncode, encodeChar, h c (by simp)] at this ⊢
    exact this

theorem hexDigit_ne_slash (n : Nat) (h : n < 16) : hexDigit n ≠ '/' := by
  have : ∀ n < 16, hexDigit n ≠ '/' := by decide
  exact this n h

theorem percentByte_no_slash (b : UInt8) : '/' ∉ percentByte b := by
  have high : b.toNat / 16 < 16 := by
    have := b.toNat_lt
    omega
  have low : b.toNat % 16 < 16 := Nat.mod_lt _ (by decide)
  simp only [percentByte, List.mem_cons, List.not_mem_nil, or_false, not_or]
  exact ⟨by decide, (hexDigit_ne_slash _ high).symm, (hexDigit_ne_slash _ low).symm⟩

theorem percentEncode_no_slash (t : Text) : '/' ∉ percentEncode t := by
  intro h
  obtain ⟨c, _, hc⟩ := List.mem_flatMap.1 h
  unfold encodeChar at hc
  split at hc
  · next hu =>
    rw [List.mem_singleton] at hc
    subst hc
    exact absurd hu (by decide)
  · obtain ⟨b, _, hb⟩ := List.mem_flatMap.1 hc
    exact percentByte_no_slash b hb

end EndpointSurvey.Url
