/-
Splitting a method's parameter list: each entry has attribute groups, modifiers, a type, a name and maybe a default.

Main statement: `parameterList_nil` (an empty list has no parameters).
-/
import EndpointSurvey.Binding.Basic
import EndpointSurvey.Declaration.Members
import EndpointSurvey.Declaration.TypeText

namespace EndpointSurvey

namespace RawParameter

/-- words that may precede the type -/
def modifiers : List Text := ["this", "params", "ref", "out", "in", "scoped"]

/-- the offset of the first equals sign that belongs to no comparison or arrow; `before` is the character in front -/
def assignmentFrom (offset : Nat) (before : Option Char) : Text → Option Nat
  | [] => none
  | c :: cs =>
    let opened := before.any fun b => b == '=' || b == '!' || b == '<' || b == '>'
    let closed := cs.head?.any fun n => n == '=' || n == '>'
    if c = '=' ∧ !opened ∧ !closed then some offset else assignmentFrom (offset + 1) c cs

/-- the type and the name that a declaration ends in; an `@` in front of the name is no part of it -/
def typeAndName? (declaration : Text) : Option (Text × Text) := do
  let words := declaration.words.dropWhile (modifiers.contains ·)
  let (before, name) ← Text.trailingIdentifier? (Text.join " " words)
  let typeText := Text.trim (if before.getLast? = some '@' then before.dropLast else before)
  if typeText.isEmpty then none else some (tidyType typeText, name)

/-- reads one entry of a parameter list; nothing when its attributes do not close or it is no type and name -/
def ofText? (entry : Text) : Option RawParameter := do
  let s := Source.ofText entry
  let lead := Text.leadingBlanks s.code
  match leadingGroups lead lead (s.code.drop lead) with
  | .error _ => none
  | .ok (_, start) =>
    let rest := s.drop start
    let (declaration, default) := match assignmentFrom 0 none rest.code with
      | none => (rest.raw, [])
      | some i => (rest.raw.take i, Text.trim (rest.raw.drop (i + 1)))
    let (typeText, name) ← typeAndName? declaration
    some
      { attributeText := Text.trim (s.slice lead start).raw
        typeText := typeText
        name := name
        default := if default.isEmpty then none else some default }

end RawParameter

/-- the parameters of a list, as written -/
def parameterList (t : Text) : List RawParameter := (splitTop ',' true t).filterMap RawParameter.ofText?

theorem parameterList_nil : parameterList [] = [] := by
  simp [parameterList, splitTop, segments, segmentsFrom, Text.trim, Text.trimLeft, Text.trimRight, Text.dropEnd]

end EndpointSurvey
