/-
Documents as they are rendered from a description: controllers with a route each, their actions with a verb, a route, a
signature and a body, and blanks between all parts.

A document is written in two forms at once, as text and as the code that is left of it when literals and comments are
blanked: `form` takes what becomes of the body of a literal and of the body of an action. What the description says of a
controller and of an action, in the terms of the survey, is `Class.outline` and `Action.outline`.
-/
import EndpointSurvey.Document.Reading
import EndpointSurvey.Json.Parser
import EndpointSurvey.Proofs.Source.Nesting

namespace EndpointSurvey.Rendered

/-- blanks between two parts -/
structure Blanks where
  text : Text
  blank : text.all blank = true

namespace Blanks

def empty : Blanks := ⟨[], List.all_nil⟩

def single : Blanks := ⟨" ", rfl⟩

theorem single_ne_nil : single.text ≠ [] := by decide

end Blanks

/-! ## Names and types -/

/-- a letter, a digit or an underscore -/
def nameChar (c : Char) : Bool := c.isAlphanum || c == '_'

/-- the words that are no names: keywords that may stand where a name does -/
def keptWords : List Text := methodModifiers ++ RawParameter.modifiers ++ nonMethodWords ++ nonTypeNames

def isName (t : Text) : Bool := t.head?.any identifierStart && t.all nameChar && !keptWords.contains t

/-- an identifier of the first 128 characters, or the keyword of a predefined type -/
structure Name where
  text : Text
  isName : isName text = true

mutual

/-- a type: a name with or without arguments, an array, or a nullable type -/
inductive TypeExpr where
  | name (n : Name)
  | generic (n : Name) (arguments : TypeArguments)
  | array (element : TypeExpr)
  | nullable (t : TypeExpr)

/-- the arguments of a generic type, at least one -/
inductive TypeArguments where
  | one (t : TypeExpr)
  | more (t : TypeExpr) (rest : TypeArguments)

end

mutual

def TypeExpr.text : TypeExpr → Text
  | .name n => n.text
  | .generic n arguments => n.text ++ '<' :: (arguments.text ++ ['>'])
  | .array element => element.text ++ ['[', ']']
  | .nullable t => t.text ++ ['?']

def TypeArguments.text : TypeArguments → Text
  | .one t => t.text
  | .more t rest => t.text ++ ',' :: ' ' :: rest.text

end

/-! ## String literals -/

/-- a character that stands for itself in a regular string -/
def bodyChar (c : Char) : Bool := c != '"' && c != '\\' && c != '\n'

/-- the characters that stand for another one behind a backslash, each with that one -/
def escapes : List (Char × Char) :=
  [('\'', '\''), ('"', '"'), ('\\', '\\'), ('0', '\x00'), ('a', '\x07'), ('b', '\x08'), ('f', '\x0c'), ('n', '\n'),
    ('r', '\r'), ('t', '\t'), ('v', '\x0b')]

/-- the marks behind a backslash that digits of a code point follow, each with their number -/
def pointMarks : List (Char × Nat) := [('u', 4), ('U', 8), ('x', 4)]

/-- the code point that hexadecimal digits write -/
def codePoint? (digits : Text) : Option Nat :=
  digits.foldlM (fun n c => (Json.hexValue? c).map fun digit => 16 * n + digit) 0

/-- how one character is written in a regular string: as itself, by an escape, or by its code point -/
inductive Spelling where
  | plain (c : Char) (free : bodyChar c = true)
  | escape (mark value : Char) (listed : (mark, value) ∈ escapes)
  | point (mark : Char) (digits : Text) (value : Char) (listed : (mark, digits.length) ∈ pointMarks)
      (digits_value : codePoint? digits = some value.toNat)

namespace Spelling

def text : Spelling → Text
  | plain c _ => [c]
  | escape mark _ _ => ['\\', mark]
  | point mark digits _ _ _ => '\\' :: mark :: digits

/-- the character written -/
def value : Spelling → Char
  | plain c _ => c
  | escape _ value _ => value
  | point _ _ value _ _ => value

/-- what the survey takes it for -/
def reading : Spelling → Text
  | plain c _ => [c]
  | escape mark _ _ => [escapedChar mark]
  | point mark digits _ _ _ => escapedChar mark :: digits

/-- the survey takes it for the character written -/
def Understood (s : Spelling) : Prop := s.reading = [s.value]

instance (s : Spelling) : Decidable s.Understood := by unfold Understood; infer_instance

end Spelling

/-- a regular string, as its characters are written -/
abbrev Literal := List Spelling

namespace Literal

/-- what stands between the quotes -/
def body (l : Literal) : Text := l.flatMap Spelling.text

/-- the string written -/
def value (l : Literal) : Text := l.map Spelling.value

/-- what the survey takes it for -/
def reading (l : Literal) : Text := l.flatMap Spelling.reading

def Understood (l : Literal) : Prop := ∀ s ∈ l, s.Understood

instance (l : Literal) : Decidable l.Understood := by unfold Understood; infer_instance

end Literal

/-! ## Actions and controllers -/

/-- the words that declare a type -/
def declaringWords : List Text := ["class", "struct", "record", "enum", "interface"]

/-- The body of an action: lines that are lexically closed, with braces that pair up, and in whose code no type is
declared. -/
structure Body where
  text : Text
  first : text.head? = some '\n'
  last : text.getLast? = some '\n'
  closed : ∀ rest, mask true (text ++ rest) = mask true text ++ mask true rest
  pairs : bracesPair (mask true text)
  undeclaring : ∀ word ∈ declaringWords, Text.hasWord word (mask true text) = false

/-- a parameter of an action -/
structure Declared where
  type : TypeExpr
  name : Name

namespace Declared

def text (p : Declared) : Text := p.type.text ++ ' ' :: p.name.text

/-- the parameter as an entry of a list -/
def raw (p : Declared) : RawParameter := ⟨[], p.type.text, p.name.text, none⟩

end Declared

/-- an attribute whose argument is a regular string -/
def attributeForm (name literal : Text) : Text := '[' :: (name ++ '(' :: '"' :: (literal ++ ['"', ')', ']']))

/-- an action, with the blanks above it, below its route, and between its signature and its body -/
structure Action where
  above : Blanks
  verb : Verb
  route : Literal
  below : Blanks
  returnType : TypeExpr
  name : Name
  parameters : List Declared
  gap : Blanks
  body : Body

namespace Action

/-- `returnType name(parameters)` -/
def declaration (a : Action) : Text :=
  a.returnType.text ++ ' ' :: (a.name.text ++ '(' :: (Text.join ", " (a.parameters.map Declared.text) ++ [')']))

def signature (a : Action) : Text := "public " ++ a.declaration

/-- the action up to its body -/
def headForm (literal : Text → Text) (a : Action) : Text :=
  a.above.text ++ (attributeForm a.verb.attributeName (literal a.route.body) ++
    (a.below.text ++ (a.signature ++ a.gap.text)))

def form (literal body : Text → Text) (a : Action) : Text :=
  a.headForm literal ++ '\x7b' :: (body a.body.text ++ ['\x7d'])

end Action

/-- a controller, with the blanks above it, below its route, in front of its line, between its heading and its body and
at the end of that -/
structure Class where
  above : Blanks
  route : Literal
  below : Blanks
  margin : Blanks
  name : Name
  gap : Blanks
  actions : List Action
  bottom : Blanks

namespace Class

def fullName (c : Class) : Text := c.name.text ++ controllerSuffix

/-- what stands in front of the keyword of the declaration -/
def frontForm (literal : Text → Text) (c : Class) : Text :=
  c.above.text ++ (attributeForm "Route" (literal c.route.body) ++ (c.below.text ++ '\n' :: (c.margin.text ++ "public ")))

/-- the keyword and the name -/
def heading (c : Class) : Text := "class " ++ c.fullName

/-- what follows the name up to the body -/
def baseForm (c : Class) : Text := " : ControllerBase" ++ c.gap.text

/-- what stands between the braces -/
def insideForm (literal body : Text → Text) (c : Class) : Text :=
  c.actions.flatMap (Action.form literal body) ++ c.bottom.text

def form (literal body : Text → Text) (c : Class) : Text :=
  c.frontForm literal ++ (c.heading ++ (c.baseForm ++ '\x7b' :: (c.insideForm literal body ++ ['\x7d'])))

end Class

/-- a document: controllers, and blanks below the last one -/
structure File where
  classes : List Class
  bottom : Blanks

namespace File

def form (literal body : Text → Text) (f : File) : Text := f.classes.flatMap (Class.form literal body) ++ f.bottom.text

/-- the document as text -/
def text (f : File) : Text := f.form id id

/-- the document as code -/
def code (f : File) : Text := f.form Lexeme.blankOut (mask true)

/-- the literals of a document -/
def literals (f : File) : List Literal := f.classes.flatMap fun c => c.route :: c.actions.map Action.route

end File

/-! ## What a description says -/

/-- a controller as it is described: its name and its route -/
structure ControllerOutline where
  name : Text
  baseRoute : Text
  authRequired : Bool
  deriving DecidableEq, Repr

/-- an endpoint as it is described; of its parameters the types and the names -/
structure EndpointOutline where
  method : Text
  controller : Text
  action : Text
  route : RouteTemplate
  returnType : Text
  parameters : List (Text × Text)
  authRequired : Bool
  deriving DecidableEq, Repr

/-- what a class is described as, given what its literals are taken for -/
def Class.outline (read : Literal → Text) (c : Class) : ControllerOutline := ⟨c.fullName, read c.route, false⟩

/-- what an action is described as; what the framework supplies is none of its parameters -/
def Action.outline (read : Literal → Text) (c : Class) (a : Action) : EndpointOutline :=
  { method := a.verb.name
    controller := c.fullName
    action := a.name.text
    route := Route.normalize (Route.joined (RouteNames.plain c.fullName a.name.text) (read c.route) (some (read a.route)))
    returnType := a.returnType.text
    parameters := (a.parameters.filter fun p => !Binding.injected [] p.raw).map fun p => (p.type.text, p.name.text)
    authRequired := false }

end Rendered

/-- what is reported of a controller, apart from where it stands -/
def Controller.outline (c : Controller) : Rendered.ControllerOutline := ⟨c.name, c.baseRoute, c.authRequired⟩

/-- what is reported of an endpoint, apart from where it stands and from where its parameters are bound -/
def Endpoint.outline (e : Endpoint) : Rendered.EndpointOutline :=
  { method := e.method
    controller := e.controller
    action := e.action
    route := ⟨e.route, e.pathTokens⟩
    returnType := e.returnType
    parameters := e.parameters.map fun p => (p.typeText, p.variableName)
    authRequired := e.authRequired }

end EndpointSurvey
