/-
Writing JSON values, and showing them in messages.

Main statements: `write` gives one line with a blank after each comma and colon and only plain characters inside
strings (`escaped_plain`); `plain` gives a value's text in a message, where a string stands for itself and the items of
lists and maps are shown with quotes.
-/
import EndpointSurvey.Json.Basic
import EndpointSurvey.Text.Quoted

namespace EndpointSurvey.Json

/-- a 16-bit unit as an escape -/
def unitEscape (n : Nat) : Text := '\\' :: 'u' :: Text.hexPadded 4 n

/-- one character inside a JSON string: whatever is not plain is escaped, in two units above U+FFFF -/
def escaped (c : Char) : Text :=
  if c = '"' || c = '\\' then ['\\', c]
  else if c = '\n' then "\\n"
  else if c = '\r' then "\\r"
  else if c = '\t' then "\\t"
  else if c = '\x08' then "\\b"
  else if c = '\x0c' then "\\f"
  else if ' ' ≤ c ∧ c ≤ '~' then [c]
  else if c.toNat < 0x10000 then unitEscape c.toNat
  else unitEscape (0xD800 + (c.toNat - 0x10000) / 0x400) ++ unitEscape (0xDC00 + (c.toNat - 0x10000) % 0x400)

def writeString (t : Text) : Text := '"' :: t.flatMap escaped ++ ['"']

/-- the names of the special numbers in JSON -/
def specialNumbers : Text × Text := ("Infinity", "NaN")

mutual

/-- the value on one line -/
def write : Json → Text
  | .null => "null"
  | .bool true => "true"
  | .bool false => "false"
  | .int n => Text.ofInt n
  | .float v => v.write specialNumbers
  | .string t => writeString t
  | .array items => '[' :: writeItems items ++ [']']
  | .object members => '\x7b' :: writeMembers members ++ ['\x7d']

def writeItems : List Json → Text
  | [] => []
  | [item] => write item
  | item :: rest => write item ++ ", " ++ writeItems rest

def writeMembers : List (Text × Json) → Text
  | [] => []
  | [(key, item)] => writeString key ++ ": " ++ write item
  | (key, item) :: rest => writeString key ++ ": " ++ write item ++ ", " ++ writeMembers rest

end

/-- a new line with an indent -/
def newLine (indent : Nat) : Text := '\n' :: List.replicate indent ' '

mutual

/-- the value on several lines, each level two blanks further in -/
def writeLines (indent : Nat) : Json → Text
  | .array [] => ['[', ']']
  | .array items => '[' :: writeItemLines (indent + 2) items ++ newLine indent ++ [']']
  | .object [] => ['\x7b', '\x7d']
  | .object members => '\x7b' :: writeMemberLines (indent + 2) members ++ newLine indent ++ ['\x7d']
  | v => write v

def writeItemLines (indent : Nat) : List Json → Text
  | [] => []
  | [item] => newLine indent ++ writeLines indent item
  | item :: rest => newLine indent ++ writeLines indent item ++ "," ++ writeItemLines indent rest

def writeMemberLines (indent : Nat) : List (Text × Json) → Text
  | [] => []
  | [(key, item)] => newLine indent ++ writeString key ++ ": " ++ writeLines indent item
  | (key, item) :: rest =>
    newLine indent ++ writeString key ++ ": " ++ writeLines indent item ++ "," ++ writeMemberLines indent rest

end

/-- the names of the special numbers in messages -/
def shownNumbers : Text × Text := ("inf", "nan")

mutual

/-- a value shown inside a list or map in a message: strings have quotes -/
def shown : Json → Text
  | .null => "None"
  | .bool true => "True"
  | .bool false => "False"
  | .int n => Text.ofInt n
  | .float v => v.write shownNumbers
  | .string t => Text.quoted t
  | .array items => '[' :: shownItems items ++ [']']
  | .object members => '\x7b' :: shownMembers members ++ ['\x7d']

def shownItems : List Json → Text
  | [] => []
  | [item] => shown item
  | item :: rest => shown item ++ ", " ++ shownItems rest

def shownMembers : List (Text × Json) → Text
  | [] => []
  | [(key, item)] => Text.quoted key ++ ": " ++ shown item
  | (key, item) :: rest => Text.quoted key ++ ": " ++ shown item ++ ", " ++ shownMembers rest

end

/-- a value as text: a string stands for itself -/
def plain : Json → Text
  | .string t => t
  | v => shown v

/-- the name of a value's type in messages -/
def typeName : Json → Text
  | .null => "NoneType"
  | .bool _ => "bool"
  | .int _ => "int"
  | .float _ => "float"
  | .string _ => "str"
  | .array _ => "list"
  | .object _ => "dict"

theorem escaped_plain {c : Char} (h : ' ' ≤ c ∧ c ≤ '~') (hq : c ≠ '"') (hb : c ≠ '\\') : escaped c = [c] := by
  have hn : c ≠ '\n' := by rintro rfl; exact absurd h.1 (by decide)
  have hr : c ≠ '\r' := by rintro rfl; exact absurd h.1 (by decide)
  have ht : c ≠ '\t' := by rintro rfl; exact absurd h.1 (by decide)
  have h8 : c ≠ '\x08' := by rintro rfl; exact absurd h.1 (by decide)
  have h12 : c ≠ '\x0c' := by rintro rfl; exact absurd h.1 (by decide)
  simp [escaped, hq, hb, hn, hr, ht, h8, h12, h]

end EndpointSurvey.Json
