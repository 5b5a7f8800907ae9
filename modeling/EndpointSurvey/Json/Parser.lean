/-
Reading JSON: the standard grammar with two additions, the names `NaN`, `Infinity` and `-Infinity` as numbers, and a
repeated key, whose last value counts in the place of its first. Half of a surrogate pair without its other half reads
as the replacement character.

Main statement: `parse?_blank` (a blank text is no JSON text).
-/
import EndpointSurvey.Json.Basic
import EndpointSurvey.Text.Blank

namespace EndpointSurvey.Json

/-- the blanks that JSON allows between tokens -/
def gap (c : Char) : Bool := c == ' ' || c == '\t' || c == '\n' || c == '\r'

def skipGap (t : Text) : Text := t.dropWhile gap

def hexValue? (c : Char) : Option Nat :=
  if c.isDigit then some (c.toNat - 48)
  else if 'a' ≤ c ∧ c ≤ 'f' then some (c.toNat - 87)
  else if 'A' ≤ c ∧ c ≤ 'F' then some (c.toNat - 55)
  else none

/-- four hexadecimal digits -/
def unit? : Text → Option (Nat × Text)
  | a :: b :: c :: d :: rest => do
    let n := (((← hexValue? a) * 16 + (← hexValue? b)) * 16 + (← hexValue? c)) * 16 + (← hexValue? d)
    some (n, rest)
  | _ => none

/-- what a single character after a backslash stands for -/
def escape? : Char → Option Char
  | '"' => some '"'
  | '\\' => some '\\'
  | '/' => some '/'
  | 'b' => some '\x08'
  | 'f' => some '\x0c'
  | 'n' => some '\n'
  | 'r' => some '\r'
  | 't' => some '\t'
  | _ => none

/-- the second half of a surrogate pair, written as an escape -/
def lowSurrogate? (t : Text) : Option (Nat × Text) :=
  match t with
  | '\\' :: 'u' :: rest =>
    match unit? rest with
    | some (n, rest') => if 0xDC00 ≤ n ∧ n ≤ 0xDFFF then some (n, rest') else none
    | none => none
  | _ => none

/-- the character of an escape by code units, and what follows it -/
def unicode? (t : Text) : Option (Char × Text) := do
  let (n, rest) ← unit? t
  if 0xD800 ≤ n ∧ n ≤ 0xDBFF then
    match lowSurrogate? rest with
    | some (m, rest') => some (Char.ofNat (0x10000 + (n - 0xD800) * 0x400 + (m - 0xDC00)), rest')
    | none => some ('\ufffd', rest)
  else if 0xDC00 ≤ n ∧ n ≤ 0xDFFF then some ('\ufffd', rest)
  else some (Char.ofNat n, rest)

/-- the rest of a string after its opening quote; each step takes at least one character, so `budget` is the length -/
def stringBody? : Nat → Text → Option (Text × Text)
  | 0, _ => none
  | budget + 1, t =>
    match t with
    | [] => none
    | '"' :: rest => some ([], rest)
    | '\\' :: 'u' :: rest => do
      let (c, rest) ← unicode? rest
      let (body, rest) ← stringBody? budget rest
      some (c :: body, rest)
    | '\\' :: c :: rest => do
      let c ← escape? c
      let (body, rest) ← stringBody? budget rest
      some (c :: body, rest)
    | '\\' :: [] => none
    | c :: rest =>
      if c.toNat < 32 then none
      else do
        let (body, rest) ← stringBody? budget rest
        some (c :: body, rest)

/-- the value of a run of plain digits -/
def natOf (digits : Text) : Nat := digits.foldl (fun n c => n * 10 + (c.toNat - 48)) 0

/-- a fraction: a point and at least one digit -/
def fraction (t : Text) : Text × Text :=
  match t with
  | '.' :: rest =>
    let digits := rest.takeWhile Char.isDigit
    if digits.isEmpty then ([], t) else (digits, rest.drop digits.length)
  | _ => ([], t)

/-- an exponent: its mark, a sign and at least one digit -/
def exponent? (t : Text) : Option (Int × Text) :=
  match t with
  | c :: rest =>
    if c == 'e' || c == 'E' then
      let (negative, rest) := match rest with
        | '-' :: r => (true, r)
        | '+' :: r => (false, r)
        | r => (false, r)
      let digits := rest.takeWhile Char.isDigit
      if digits.isEmpty then none
      else
        let n : Int := natOf digits
        some (if negative then -n else n, rest.drop digits.length)
    else none
  | [] => none

/-- an unsigned number -/
def magnitude? (negative : Bool) (t : Text) : Option (Json × Text) :=
  let digits := t.takeWhile Char.isDigit
  let digits := if digits.head? = some '0' then ['0'] else digits
  if digits.isEmpty then none
  else
    let rest := t.drop digits.length
    let (places, rest') := fraction rest
    match exponent? rest' with
    | some (e, rest'') =>
      some (.float (.ofDecimal negative (natOf (digits ++ places)) (e - places.length)), rest'')
    | none =>
      if places.isEmpty then
        let n : Int := natOf digits
        some (.int (if negative then -n else n), rest)
      else some (.float (.ofDecimal negative (natOf (digits ++ places)) (-(places.length : Int))), rest')

/-- the words that stand for values -/
def word? (t : Text) : Option (Json × Text) :=
  let words : List (Text × Json) :=
    [("null", .null), ("true", .bool true), ("false", .bool false), ("NaN", .float .undefined),
      ("Infinity", .float (.infinite false)), ("-Infinity", .float (.infinite true))]
  words.findSome? fun (word, value) => (Text.after? word t).map (value, ·)

mutual

/-- a value at the start of the text; every nested value takes at least one character, so `budget` is the length -/
def value? : Nat → Text → Option (Json × Text)
  | 0, _ => none
  | budget + 1, t =>
    match t with
    | '"' :: rest => (stringBody? (rest.length + 1) rest).map fun (s, rest) => (.string s, rest)
    | '[' :: rest =>
      match skipGap rest with
      | ']' :: rest => some (.array [], rest)
      | rest => (items? budget rest).map fun (items, rest) => (.array items, rest)
    | '\x7b' :: rest =>
      match skipGap rest with
      | '\x7d' :: rest => some (.object [], rest)
      | rest => (members? budget rest).map fun (members, rest) => (.object (Entries.ofList members), rest)
    | _ =>
      match word? t with
      | some found => some found
      | none =>
        match t with
        | '-' :: rest => magnitude? true rest
        | _ => magnitude? false t

/-- the items of an array, up to and past its closing bracket -/
def items? : Nat → Text → Option (List Json × Text)
  | 0, _ => none
  | budget + 1, t => do
    let (item, rest) ← value? budget t
    match skipGap rest with
    | ']' :: rest => some ([item], rest)
    | ',' :: rest =>
      let (more, rest) ← items? budget (skipGap rest)
      some (item :: more, rest)
    | _ => none

/-- the members of an object, up to and past its closing brace -/
def members? : Nat → Text → Option (List (Text × Json) × Text)
  | 0, _ => none
  | budget + 1, t =>
    match t with
    | '"' :: rest => do
      let (key, rest) ← stringBody? (rest.length + 1) rest
      match skipGap rest with
      | ':' :: rest =>
        let (item, rest) ← value? budget (skipGap rest)
        match skipGap rest with
        | '\x7d' :: rest => some ([(key, item)], rest)
        | ',' :: rest =>
          let (more, rest) ← members? budget (skipGap rest)
          some ((key, item) :: more, rest)
        | _ => none
      | _ => none
    | _ => none

end

/-- the value that a whole text writes -/
def parse? (t : Text) : Option Json :=
  match value? (t.length + 1) (skipGap t) with
  | some (v, rest) => if (skipGap rest).isEmpty then some v else none
  | none => none

theorem parse?_blank {t : Text} (gaps : ∀ c ∈ t, gap c = true) : parse? t = none := by
  have front : skipGap t = [] := by
    induction t with
    | nil => rfl
    | cons c cs ih =>
      rw [skipGap, List.dropWhile_cons_of_pos (gaps c List.mem_cons_self)]
      exact ih fun d hd => gaps d (.tail c hd)
  unfold parse?
  rw [front]
  simp only [value?]
  rfl

end EndpointSurvey.Json
