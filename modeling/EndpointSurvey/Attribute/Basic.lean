/-
Attributes: the names, arguments and named arguments of bracketed groups such as `[HttpGet("users"), Authorize]`.

Main statement: `Attribute.find?_some_name` (what is found bears one of the names asked for).
-/
import EndpointSurvey.Text.LowerCase

namespace EndpointSurvey

structure Attribute where
  name : Text
  arguments : List Text
  namedArguments : List (Text × Text)
  /-- the entry as written, without the word that says what it applies to -/
  raw : Text
  deriving DecidableEq, Repr

namespace Attribute

/-- what an attribute's class name may end in -/
def suffix : Text := "Attribute"

/-- the name an attribute goes by: unqualified, without `@` and without the class name's ending -/
def shortName (name : Text) : Text :=
  let last := Text.afterLast '.' (name.dropWhile (· == '@'))
  if Text.endsWith suffix last && suffix.length < last.length then last.take (last.length - suffix.length) else last

/-- the first positional argument -/
def primary? (a : Attribute) : Option Text := a.arguments.head?

/-- the first argument of this name, whatever its case -/
def named? (key : Text) (a : Attribute) : Option Text :=
  (a.namedArguments.find? fun (name, _) => Text.sameFolded name key).map (·.2)

/-- the first attribute that bears one of the names -/
def find? (names : List Text) (attributes : List Attribute) : Option Attribute :=
  attributes.find? fun a => names.contains a.name

/-- does some attribute bear the name? -/
def has (name : Text) (attributes : List Attribute) : Bool := (find? [name] attributes).isSome

theorem find?_some_name {names : List Text} {attributes : List Attribute} {a : Attribute}
    (h : find? names attributes = some a) : a ∈ attributes ∧ a.name ∈ names := by
  refine ⟨List.mem_of_find?_eq_some h, ?_⟩
  simpa using List.find?_some h

end Attribute

/-- the HTTP verbs -/
inductive Verb where
  | get
  | post
  | put
  | delete
  | patch
  | head
  | options
  deriving DecidableEq, Repr

namespace Verb

def all : List Verb := [.get, .post, .put, .delete, .patch, .head, .options]

def name : Verb → Text
  | get => "GET"
  | post => "POST"
  | put => "PUT"
  | delete => "DELETE"
  | patch => "PATCH"
  | head => "HEAD"
  | options => "OPTIONS"

/-- the attribute that makes a method an action of this verb -/
def attributeName : Verb → Text
  | get => "HttpGet"
  | post => "HttpPost"
  | put => "HttpPut"
  | delete => "HttpDelete"
  | patch => "HttpPatch"
  | head => "HttpHead"
  | options => "HttpOptions"

/-- the verb an attribute stands for -/
def ofAttribute? (a : Attribute) : Option Verb := all.find? (·.attributeName == a.name)

/-- the first attribute that stands for a verb, with its verb -/
def find? (attributes : List Attribute) : Option (Attribute × Verb) :=
  attributes.findSome? fun a => (ofAttribute? a).map (a, ·)

theorem mem_all (v : Verb) : v ∈ all := by cases v <;> decide

end Verb

end EndpointSurvey
