/-
Name rules: what the name of a value says about it. The first rule whose words occur in the name, in the place it looks
at, and whose kind suits the scalar decides the value.

Main statement: `NameRule.find?_suits` (a rule that is chosen applies to the name and suits the scalar).
-/
import EndpointSurvey.Catalog.Resolution
import EndpointSurvey.Json.Basic
import EndpointSurvey.Sample.NameWords

namespace EndpointSurvey

/-- where a rule looks for its words: anywhere in the folded name, at its end, or among the words of the name -/
inductive RulePlace where
  | anywhere
  | ending
  | firstWord
  | lastWord
  | someWord
  deriving DecidableEq, Repr

def RulePlace.name : RulePlace → Text
  | .anywhere => "any"
  | .ending => "suffix"
  | .firstWord => "first"
  | .lastWord => "last"
  | .someWord => "word"

/-- what a rule gives -/
inductive RuleValue where
  | text (t : Text)
  | whole (n : Int)
  | decimal (v : Binary64)
  | truth (b : Bool)
  /-- the current time -/
  | timestamp
  /-- something that tells one record from another -/
  | identifier

namespace RuleValue

def kindName : RuleValue → Text
  | text _ => "string"
  | whole _ => "integer"
  | decimal _ => "number"
  | truth _ => "boolean"
  | timestamp => "timestamp"
  | identifier => "identifier"

/-- the scalars that a value of this kind suits -/
def suits : RuleValue → Scalar → Bool
  | text _, s => s == .string || s == .url
  | whole _, s => s == .integer || s == .number
  | decimal _, s => s == .number
  | truth _, s => s == .boolean
  | timestamp, s => s == .string || s == .dateTime || s == .date || s == .time
  | identifier, s => s == .integer || s == .number || s == .string || s == .guid

end RuleValue

structure NameRule where
  words : List Text
  place : RulePlace
  value : RuleValue

namespace NameRule

def mailSample : Text := "test@example.com"

def phoneSample : Text := "+1-555-0123"

def linkSample : Text := "https://example.com"

def descriptionSample : Text := "This is a sample description"

/-- 99.99 -/
def priceSample : Binary64 := Binary64.ofDecimal false 9999 (-2)

/-- the rules, the more specific names first -/
def all : List NameRule :=
  [⟨["email", "mail"], .anywhere, .text mailSample⟩,
    ⟨["password", "passwd", "pwd"], .anywhere, .text "Sample@Password123"⟩,
    ⟨["phone", "mobile"], .anywhere, .text phoneSample⟩,
    ⟨["tel"], .someWord, .text phoneSample⟩,
    ⟨["url", "website", "link", "homepage"], .anywhere, .text linkSample⟩,
    ⟨["uri"], .someWord, .text linkSample⟩,
    ⟨["zip", "postal", "postcode"], .anywhere, .text "10001"⟩,
    ⟨["address", "street"], .anywhere, .text "123 Main Street"⟩,
    ⟨["city"], .anywhere, .text "New York"⟩,
    ⟨["country"], .anywhere, .text "USA"⟩,
    ⟨["price", "amount", "cost", "total"], .anywhere, .decimal priceSample⟩,
    ⟨["quantity", "count"], .anywhere, .whole 1⟩,
    ⟨["qty"], .someWord, .whole 1⟩,
    ⟨["date", "time", "timestamp"], .anywhere, .timestamp⟩,
    ⟨["at"], .lastWord, .timestamp⟩,
    ⟨["name", "title"], .anywhere, .text "Sample Name"⟩,
    ⟨["description", "summary"], .anywhere, .text descriptionSample⟩,
    ⟨["desc"], .someWord, .text descriptionSample⟩,
    ⟨["status", "state"], .anywhere, .text "active"⟩,
    ⟨["category"], .anywhere, .text "General"⟩,
    ⟨["id", "uuid", "guid"], .ending, .identifier⟩,
    ⟨["is", "has", "can"], .firstWord, .truth true⟩]

/-- does a rule apply to a name of these words? A first word counts only if another follows. -/
def applies (rule : NameRule) (words : List Text) : Bool :=
  let folded := words.flatten
  match rule.place with
  | .anywhere => rule.words.any (Text.contains · folded)
  | .ending => rule.words.any (Text.endsWith · folded)
  | .firstWord => 1 < words.length && words.head?.any (rule.words.contains ·)
  | .lastWord => words.getLast?.any (rule.words.contains ·)
  | .someWord => words.any (rule.words.contains ·)

/-- the rule that decides the value of a name and a scalar -/
def find? (name : Text) (scalar : Scalar) : Option NameRule :=
  let words := nameWords name
  if words.isEmpty then none else all.find? fun rule => rule.applies words && rule.value.suits scalar

theorem find?_suits {name : Text} {scalar : Scalar} {rule : NameRule} (h : find? name scalar = some rule) :
    rule.applies (nameWords name) = true ∧ rule.value.suits scalar = true := by
  unfold find? at h
  simp only at h
  split at h
  · cases h
  · simpa using List.find?_some h

end NameRule

end EndpointSurvey
