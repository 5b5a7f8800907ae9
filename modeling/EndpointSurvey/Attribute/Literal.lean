/-
The values of literal arguments: strings without their quotes and escapes, and the names inside `nameof`.

Main statements: `unescape_plain` (a body without a backslash is its own value) and `literalValue_of_string`.
-/
import EndpointSurvey.Text.Blank
import EndpointSurvey.Text.WordChar

namespace EndpointSurvey

/-- the marks in front of a string: `@` makes it verbatim, `$` interpolated -/
def stringMark (c : Char) : Bool := c == '@' || c == '$'

/-- the marks and the body of a text that is one string literal from its first mark to its last quote -/
def stringLiteral? (t : Text) : Option (Text × Text) :=
  match t.dropWhile stringMark with
  | '"' :: rest => if rest.getLast? = some '"' then some (t.takeWhile stringMark, rest.dropLast) else none
  | _ => none

/-- the character that a backslash and this one stand for -/
def escapedChar : Char → Char
  | 'n' => '\n'
  | 't' => '\t'
  | c => c

/-- the value of a regular string's body; a backslash before a line feed is kept -/
def unescape : Text → Text
  | '\\' :: c :: cs => if c = '\n' then '\\' :: c :: unescape cs else escapedChar c :: unescape cs
  | c :: cs => c :: unescape cs
  | [] => []

theorem unescape_plain (t : Text) (h : '\\' ∉ t) : unescape t = t := by
  fun_induction unescape t with
  | case1 | case2 => simp at h
  | case3 c cs _ ih => rw [ih fun hm => h (by simp [hm])]
  | case4 => rfl

/-- the last name inside `nameof(…)` -/
def symbolName? (t : Text) : Option Text := do
  let rest ← Text.after? "nameof" t
  match rest.dropWhile blank with
  | '(' :: inside =>
    let path := Text.trim inside.dropLast
    let name := Text.afterLast '.' path
    let qualified := name == path || name.length + 2 ≤ path.length
    if inside.getLast? = some ')' && path.all dottedChar && !name.isEmpty && qualified then some name else none
  | _ => none

/-- the value of an argument: of a string its content, of `nameof` its name, and any other text is its own value -/
def literalValue (t : Text) : Text :=
  let t := t.trim
  match stringLiteral? t with
  | some (marks, body) => if marks.elem '@' then Text.replace ['"', '"'] ['"'] body else unescape body
  | none => (symbolName? t).getD t

theorem stringLiteral?_quoted (body : Text) : stringLiteral? ('"' :: body ++ ['"']) = some ([], body) := by
  simp [stringLiteral?, stringMark]

theorem literalValue_of_string (body : Text) : literalValue ('"' :: body ++ ['"']) = unescape body := by
  have quote : blank '"' = false := by decide
  have trimmed : Text.trim ('"' :: body ++ ['"']) = '"' :: body ++ ['"'] := by
    simp [Text.trim, Text.trimLeft, Text.trimRight, Text.dropEnd, quote]
  simp only [literalValue, trimmed, stringLiteral?_quoted]
  rfl

end EndpointSurvey
