/-
Reading what URLs encode: an escape stands for a byte, any other character for its own bytes, and bytes for their text;
in a query a plus sign is a space, entries stand between ampersands, and an equals sign ends a key. Every character is
read back from its one to four bytes, whatever bytes follow.

Main statements: `Utf8.decode_encode` (a text is what its bytes say), `percentDecode?_percentEncode` and
`readQuery?_writeQuery` (what is written is read back).
-/
import EndpointSurvey.Proofs.Text.Spacing
import EndpointSurvey.Text.Utf8
import EndpointSurvey.Url.Quoting

namespace EndpointSurvey.Utf8

/-! ## Tests of bytes -/

theorem toNat_byte {n : Nat} (h : n < 256) : (UInt8.ofNat n).toNat = n := by
  rw [UInt8.toNat_ofNat']
  exact Nat.mod_eq_of_lt h

theorem between_iff {b least most : UInt8} :
    (decide (least ≤ b) && decide (b ≤ most)) = true ↔ least.toNat ≤ b.toNat ∧ b.toNat ≤ most.toNat := by
  rw [Bool.and_eq_true, decide_eq_true_eq, decide_eq_true_eq, UInt8.le_iff_toNat_le, UInt8.le_iff_toNat_le]

theorem continues_of {b : UInt8} (least : 0x80 ≤ b.toNat) (most : b.toNat ≤ 0xBF) : continues b = true :=
  between_iff.2 ⟨least, most⟩

/-- A continuing byte may be the second one, unless the first is one of the four that ask for more of it. -/
theorem second_of {a b : UInt8} (least : 0x80 ≤ b.toNat) (most : b.toNat ≤ 0xBF)
    (three : a.toNat = 0xE0 → 0xA0 ≤ b.toNat) (surrogate : a.toNat = 0xED → b.toNat ≤ 0x9F)
    (four : a.toNat = 0xF0 → 0x90 ≤ b.toNat) (last : a.toNat = 0xF4 → b.toNat ≤ 0x8F) : second a b = true := by
  have value : ∀ {n : UInt8}, a = n → a.toNat = n.toNat := fun h => congrArg _ h
  simp only [second, beq_iff_eq]
  split
  · next h => exact between_iff.2 ⟨three (value h), most⟩
  split
  · next h => exact between_iff.2 ⟨least, surrogate (value h)⟩
  split
  · next h => exact between_iff.2 ⟨four (value h), most⟩
  split
  · next h => exact between_iff.2 ⟨least, last (value h)⟩
  · exact continues_of least most

/-! ## Characters of each length -/

variable {a b c d : UInt8}

/-- A first byte above one range of first bytes is not in it. -/
theorem not_between_of_lt {least most : UInt8} (h : most.toNat < a.toNat) :
    ¬ (decide (least ≤ a) && decide (a ≤ most)) = true :=
  fun inside => Nat.not_le_of_lt h (between_iff.1 inside).2

theorem not_lt_of_le {n : UInt8} (h : n.toNat ≤ a.toNat) : ¬ a < n :=
  fun less => Nat.not_lt_of_le h (UInt8.lt_iff_toNat_lt.1 less)

theorem decode_one (h : a.toNat < 0x80) (rest : List UInt8) :
    decode (a :: rest) = Char.ofNat a.toNat :: decode rest := by
  have first : a < 0x80 := UInt8.lt_iff_toNat_lt.2 h
  rw [decode.eq_def]
  simp only [first, if_true]

theorem decode_two (least : 0xC2 ≤ a.toNat) (most : a.toNat ≤ 0xDF) (hb : continues b = true) (rest : List UInt8) :
    decode (a :: b :: rest) = Char.ofNat (a.toNat % 32 * 64 + low b) :: decode rest := by
  have one : ¬ a < 0x80 := not_lt_of_le (Nat.le_trans (by decide) least)
  have two : (decide (0xC2 ≤ a) && decide (a ≤ 0xDF)) = true := between_iff.2 ⟨least, most⟩
  rw [decode, if_neg one, if_pos two]
  simp only [hb, if_true]

theorem decode_three (least : 0xE0 ≤ a.toNat) (most : a.toNat ≤ 0xEF) (hb : second a b = true)
    (hc : continues c = true) (rest : List UInt8) :
    decode (a :: b :: c :: rest) = Char.ofNat (a.toNat % 16 * 4096 + low b * 64 + low c) :: decode rest := by
  have one : ¬ a < 0x80 := not_lt_of_le (Nat.le_trans (by decide) least)
  have three : (decide (0xE0 ≤ a) && decide (a ≤ 0xEF)) = true := between_iff.2 ⟨least, most⟩
  rw [decode, if_neg one, if_neg (not_between_of_lt (Nat.lt_of_lt_of_le (by decide) least)), if_pos three]
  simp only [hb, hc, Bool.and_true, if_true]

theorem decode_four (least : 0xF0 ≤ a.toNat) (most : a.toNat ≤ 0xF4) (hb : second a b = true)
    (hc : continues c = true) (hd : continues d = true) (rest : List UInt8) :
    decode (a :: b :: c :: d :: rest) =
      Char.ofNat (a.toNat % 8 * 262144 + low b * 4096 + low c * 64 + low d) :: decode rest := by
  have one : ¬ a < 0x80 := not_lt_of_le (Nat.le_trans (by decide) least)
  have four : (decide (0xF0 ≤ a) && decide (a ≤ 0xF4)) = true := between_iff.2 ⟨least, most⟩
  rw [decode, if_neg one, if_neg (not_between_of_lt (Nat.lt_of_lt_of_le (by decide) least)),
    if_neg (not_between_of_lt (Nat.lt_of_lt_of_le (by decide) least)), if_pos four]
  simp only [hb, hc, hd, Bool.and_true, if_true]

/-! ## Texts -/

/-- A character is read back from its bytes, whatever follows them. -/
theorem decode_encodeChar (c : Char) (rest : List UInt8) : decode (encodeChar c ++ rest) = c :: decode rest := by
  -- a character is no surrogate, which is why no byte that may follow 0xED is refused
  have scalar : c.toNat < 0xD800 ∨ 0xDFFF < c.toNat ∧ c.toNat < 0x110000 := c.valid
  have back : Char.ofNat c.toNat = c := Char.ofNat_toNat c
  unfold encodeChar
  generalize c.toNat = n at scalar back
  simp only
  split
  · next one =>
    have a : (UInt8.ofNat n).toNat = n := toNat_byte (by omega)
    rw [List.singleton_append, decode_one (by omega), a, back]
  split
  · next two =>
    have a : (UInt8.ofNat (0xC0 + n / 64)).toNat = 0xC0 + n / 64 := toNat_byte (by omega)
    have b : (UInt8.ofNat (0x80 + n % 64)).toNat = 0x80 + n % 64 := toNat_byte (by omega)
    show decode (_ :: _ :: rest) = _
    rw [decode_two (by omega) (by omega) (continues_of (by omega) (by omega)), low, a, b, ← back]
    congr 2
    omega
  split
  · next three =>
    have a : (UInt8.ofNat (0xE0 + n / 4096)).toNat = 0xE0 + n / 4096 := toNat_byte (by omega)
    have b : (UInt8.ofNat (0x80 + n / 64 % 64)).toNat = 0x80 + n / 64 % 64 := toNat_byte (by omega)
    have c : (UInt8.ofNat (0x80 + n % 64)).toNat = 0x80 + n % 64 := toNat_byte (by omega)
    show decode (_ :: _ :: _ :: rest) = _
    rw [decode_three (by omega) (by omega)
      (second_of (by omega) (by omega) (by omega) (by omega) (by omega) (by omega))
      (continues_of (by omega) (by omega)), low, low, a, b, c, ← back]
    congr 2
    omega
  · have a : (UInt8.ofNat (0xF0 + n / 262144)).toNat = 0xF0 + n / 262144 := toNat_byte (by omega)
    have b : (UInt8.ofNat (0x80 + n / 4096 % 64)).toNat = 0x80 + n / 4096 % 64 := toNat_byte (by omega)
    have c : (UInt8.ofNat (0x80 + n / 64 % 64)).toNat = 0x80 + n / 64 % 64 := toNat_byte (by omega)
    have d : (UInt8.ofNat (0x80 + n % 64)).toNat = 0x80 + n % 64 := toNat_byte (by omega)
    show decode (_ :: _ :: _ :: _ :: rest) = _
    rw [decode_four (by omega) (by omega)
      (second_of (by omega) (by omega) (by omega) (by omega) (by omega) (by omega))
      (continues_of (by omega) (by omega)) (continues_of (by omega) (by omega)), low, low, low, a, b, c, d, ← back]
    congr 2
    omega

/-- Every text comes back from its bytes. -/
theorem decode_encode (t : Text) : decode (encode t) = t := by
  induction t with
  | nil => rw [encode, List.flatMap_nil, decode]
  | cons c cs ih =>
    rw [encode, List.flatMap_cons, decode_encodeChar]
    exact congrArg _ ih

end EndpointSurvey.Utf8

namespace EndpointSurvey.Url

/-! ## Reading -/

/-- the number that a hexadecimal digit writes, in either case -/
def hexValue? (c : Char) : Option Nat :=
  if '0' ≤ c && c ≤ '9' then some (c.toNat - 48)
  else if 'A' ≤ c && c ≤ 'F' then some (c.toNat - 55)
  else if 'a' ≤ c && c ≤ 'f' then some (c.toNat - 87)
  else none

/-- the bytes that a text with escapes stands for; a percent sign without two digits stands for none -/
def bytes? : Text → Option (List UInt8)
  | [] => some []
  | '%' :: high :: low :: rest => do
    let high ← hexValue? high
    let low ← hexValue? low
    (bytes? rest).map (UInt8.ofNat (16 * high + low) :: ·)
  | c :: rest => if c = '%' then none else (bytes? rest).map (Utf8.encodeChar c ++ ·)

/-- the text whose bytes are those that a text with escapes stands for -/
def percentDecode? (t : Text) : Option Text := (bytes? t).map Utf8.decode

/-- in a query a plus sign is a space -/
def plusAsSpace (c : Char) : Char := if c = '+' then ' ' else c

def formDecode? (t : Text) : Option Text := percentDecode? (t.map plusAsSpace)

/-- an entry of a query: a key and a value around one equals sign -/
def readEntry? (part : Text) : Option (Text × Text) :=
  match Text.splitOn '=' part with
  | [key, value] => do pure (← formDecode? key, ← formDecode? value)
  | _ => none

def readQuery? (t : Text) : Option (List (Text × Text)) := (Text.splitOn '&' t).mapM readEntry?

/-- a text of unreserved characters and escapes of two capital hexadecimal digits -/
inductive PercentEncoded : Text → Prop where
  | nil : PercentEncoded []
  | plain {c : Char} {t : Text} (free : unreserved c = true) (h : PercentEncoded t) : PercentEncoded (c :: t)
  | escape {t : Text} (b : UInt8) (h : PercentEncoded t) : PercentEncoded (percentByte b ++ t)

/-! ## One character -/

theorem hexValue?_hexDigit {n : Nat} (h : n < 16) : hexValue? (hexDigit n) = some n := by
  have each : ∀ n < 16, hexValue? (hexDigit n) = some n := by decide
  exact each n h

theorem bytes?_percentByte (b : UInt8) (rest : Text) : bytes? (percentByte b ++ rest) = (bytes? rest).map (b :: ·) := by
  have := b.toNat_lt
  have digits : 16 * (b.toNat / 16) + b.toNat % 16 = b.toNat := by omega
  show bytes? ('%' :: hexDigit (b.toNat / 16) :: hexDigit (b.toNat % 16) :: rest) = _
  rw [bytes?, hexValue?_hexDigit (by omega), hexValue?_hexDigit (by omega)]
  simp only [Option.bind_eq_bind, Option.bind_some, digits, UInt8.ofNat_toNat]

theorem bytes?_percentBytes (bs : List UInt8) (rest : Text) :
    bytes? (bs.flatMap percentByte ++ rest) = (bytes? rest).map (bs ++ ·) := by
  induction bs with
  | nil => simp
  | cons b bs ih =>
    rw [List.flatMap_cons, List.append_assoc, bytes?_percentByte, ih, Option.map_map]
    rfl

theorem bytes?_plain {c : Char} (h : c ≠ '%') (rest : Text) :
    bytes? (c :: rest) = (bytes? rest).map (Utf8.encodeChar c ++ ·) := by
  rw [bytes?.eq_def]
  split
  · next e => cases e
  · next e =>
    cases e
    exact absurd rfl h
  · next e =>
    cases e
    rw [if_neg h]

theorem ne_of_unreserved {c d : Char} (h : unreserved c = true) (other : unreserved d = false) : c ≠ d := by
  rintro rfl
  rw [h] at other
  cases other

theorem bytes?_encodeChar (c : Char) (rest : Text) :
    bytes? (encodeChar c ++ rest) = (bytes? rest).map (Utf8.encodeChar c ++ ·) := by
  unfold encodeChar
  split
  · next free => exact bytes?_plain (ne_of_unreserved free (by decide)) rest
  · exact bytes?_percentBytes (Utf8.encodeChar c) rest

/-! ## Texts -/

theorem bytes?_percentEncode (t : Text) : bytes? (percentEncode t) = some (Utf8.encode t) := by
  induction t with
  | nil => rfl
  | cons c cs ih =>
    show bytes? (encodeChar c ++ percentEncode cs) = _
    rw [bytes?_encodeChar, ih]
    rfl

/-- Every text is read back from its percent-encoded form. -/
theorem percentDecode?_percentEncode (t : Text) : percentDecode? (percentEncode t) = some t := by
  rw [percentDecode?, bytes?_percentEncode, Option.map_some, Utf8.decode_encode]

theorem percentEncoded_percentEncode (t : Text) : PercentEncoded (percentEncode t) := by
  induction t with
  | nil => exact .nil
  | cons c cs ih =>
    show PercentEncoded (encodeChar c ++ percentEncode cs)
    unfold encodeChar
    split
    · next free => exact .plain free ih
    · generalize Utf8.encodeChar c = bs
      induction bs with
      | nil => exact ih
      | cons b bs more =>
        rw [List.flatMap_cons, List.append_assoc]
        exact .escape b more

/-! ## Queries -/

/-- In an encoded character stand only unreserved characters, percent signs and digits. -/
theorem not_mem_encodeChar {d : Char} (reserved : unreserved d = false) (percent : d ≠ '%') (c : Char) :
    d ∉ encodeChar c := by
  have digit : ∀ n < 16, unreserved (hexDigit n) = true := by decide
  unfold encodeChar
  split
  · next free => exact fun h => ne_of_unreserved free reserved (List.mem_singleton.1 h).symm
  · intro h
    obtain ⟨b, _, hb⟩ := List.mem_flatMap.1 h
    have := b.toNat_lt
    simp only [percentByte, List.mem_cons, List.not_mem_nil, or_false] at hb
    rcases hb with e | e | e
    · exact percent e
    · exact ne_of_unreserved (digit _ (by omega)) reserved e.symm
    · exact ne_of_unreserved (digit _ (by omega)) reserved e.symm

theorem not_mem_formEncode {d : Char} (reserved : unreserved d = false) (percent : d ≠ '%') (plus : d ≠ '+')
    (t : Text) : d ∉ formEncode t := by
  intro h
  obtain ⟨c, _, hc⟩ := List.mem_flatMap.1 h
  split at hc
  · exact plus (List.mem_singleton.1 hc)
  · exact not_mem_encodeChar reserved percent c hc

/-- Every text is read back from its form in a query. -/
theorem formDecode?_formEncode (t : Text) : formDecode? (formEncode t) = some t := by
  have bytes : bytes? ((formEncode t).map plusAsSpace) = some (Utf8.encode t) := by
    induction t with
    | nil => rfl
    | cons c cs ih =>
      rw [formEncode, List.flatMap_cons, List.map_append, ← formEncode]
      by_cases space : c = ' '
      · subst space
        show bytes? (' ' :: (formEncode cs).map plusAsSpace) = _
        rw [bytes?_plain (by decide), ih]
        rfl
      · have kept : (encodeChar c).map plusAsSpace = encodeChar c := by
          refine (List.map_congr_left fun d hd => ?_).trans (List.map_id _)
          have : d ≠ '+' := by
            rintro rfl
            exact not_mem_encodeChar (by decide) (by decide) c hd
          exact if_neg this
        rw [if_neg space, kept, bytes?_encodeChar, ih]
        rfl
  rw [formDecode?, percentDecode?, bytes, Option.map_some, Utf8.decode_encode]

theorem readEntry?_written (entry : Text × Text) :
    readEntry? (formEncode entry.1 ++ '=' :: formEncode entry.2) = some entry := by
  have free : ∀ t, '=' ∉ formEncode t := not_mem_formEncode (by decide) (by decide) (by decide)
  have parts : Text.splitOn '=' (formEncode entry.1 ++ '=' :: formEncode entry.2) =
      [formEncode entry.1, formEncode entry.2] := by
    have joined : Text.join ['='] [formEncode entry.1, formEncode entry.2] =
        formEncode entry.1 ++ '=' :: formEncode entry.2 := by simp [Text.join, List.intercalate]
    rw [← joined]
    exact Text.splitOn_join (by simp [free]) (by simp)
  unfold readEntry?
  rw [parts]
  simp only [formDecode?_formEncode]
  rfl

/-- The entries of a query are read back from what is written. -/
theorem readQuery?_writeQuery {entries : List (Text × Text)} (h : entries ≠ []) :
    readQuery? (writeQuery entries) = some entries := by
  have free : ∀ t, '&' ∉ formEncode t := not_mem_formEncode (by decide) (by decide) (by decide)
  have parts : Text.splitOn '&' (writeQuery entries) =
      entries.map fun entry => formEncode entry.1 ++ '=' :: formEncode entry.2 := by
    refine Text.splitOn_join (fun part member => ?_) (by simpa using h)
    obtain ⟨entry, _, rfl⟩ := List.mem_map.1 member
    simp [free]
  rw [readQuery?, parts, List.mapM_map]
  clear h parts
  induction entries with
  | nil => rfl
  | cons entry rest ih =>
    rw [List.mapM_cons, ih, Function.comp_apply, readEntry?_written]
    rfl

end EndpointSurvey.Url
