/-
The signature of a method: its modifiers, return type, name and parameter list.

Main statement: `signature?_no_paren` (a text without a parenthesis is no method's signature).
-/
import EndpointSurvey.Declaration.TypeText
import EndpointSurvey.Source.Bracket
import EndpointSurvey.Text.WordChar

namespace EndpointSurvey

def methodModifiers : List Text :=
  ["public", "private", "protected", "internal", "static", "async", "virtual", "override", "sealed", "new", "abstract",
    "extern", "unsafe", "partial", "readonly"]

structure Signature where
  name : Text
  returnType : Text
  parametersText : Text
  modifiers : List Text
  deriving DecidableEq, Repr

/-- Cuts the type parameters off a generic method's heading: a group in angle brackets at its end, after a word that a
blank precedes. -/
def dropTypeArguments (head : Text) : Text :=
  match head.reverse with
  | '>' :: rest =>
    match rest.dropWhile fun c => c != '<' && c != '>' with
    | '<' :: rest =>
      let before := rest.dropWhile blank
      let afterWord := before.dropWhile wordChar
      if before.head?.any wordChar && afterWord.head?.any blank then before.reverse else head
    | _ => head
  | _ => head

/-- splits `modifiers returnType name(parameters)`; a constructor has no return type and is no method here -/
def signature? (t : Text) : Option Signature := do
  let code := mask true t
  let start := (code.takeWhile (· != '(')).length
  let i ← closing? '(' ')' (code.drop start)
  let words := Text.words (dropTypeArguments (Text.trim (t.take start)))
  let modifiers := words.takeWhile (methodModifiers.contains ·)
  let rest := words.drop modifiers.length
  if rest.length < 2 then none
  else
    let (before, name) ← Text.trailingIdentifier? (Text.join " " rest)
    let returnType := before.trim
    if returnType.isEmpty then none
    else
      some
        { name := name
          returnType := tidyType returnType
          parametersText := (t.drop (start + 1)).take (i - 1)
          modifiers := modifiers }

theorem signature?_no_paren (t : Text) (h : '(' ∉ mask true t) : signature? t = none := by
  have whole : (mask true t).takeWhile (· != '(') = mask true t := Text.beforeFirst_of_not_mem h
  simp [signature?, whole, closing?, closingFrom]

end EndpointSurvey
