/-
What a document declares: types, and the headings of their members. A heading keeps its attribute groups as written and
its signature on one line.

Main statement: `isController_of_class_name` (a class named as a controller is one).
-/
import EndpointSurvey.Source.Basic
import EndpointSurvey.Text.WordRun

namespace EndpointSurvey

/-- the kinds of declared types; interfaces declare no model and are passed over -/
inductive DeclarationKind where
  | classType
  | recordType
  | structType
  | enumType
  deriving DecidableEq, Repr

def DeclarationKind.name : DeclarationKind → Text
  | .classType => "class"
  | .recordType => "record"
  | .structType => "struct"
  | .enumType => "enum"

/-- how the heading of a member ends: before a block, at a semicolon, or before an arrow and an expression -/
inductive Terminator where
  | block
  | semicolon
  | arrow
  deriving DecidableEq, Repr

def Terminator.name : Terminator → Text
  | .block => "\x7b"
  | .semicolon => ";"
  | .arrow => "=>"

/-- a member of a type: offsets from its first attribute or word up to past its body -/
structure MemberBlock where
  attributeText : Text
  signature : Text
  doc : Option Text
  start : Nat
  stop : Nat
  terminator : Terminator
  /-- the block in braces, if there is one -/
  accessorText : Text
  deriving DecidableEq, Repr

/-- words in front of a parenthesis that make a heading no method -/
def nonMethodWords : List Text :=
  ["class", "record", "struct", "interface", "enum", "delegate", "event", "operator"]

/-- a member is a method if its signature, up to an arrow, has a parenthesis that no such word precedes -/
def MemberBlock.isMethod (m : MemberBlock) : Bool :=
  let head := match Text.splitFirst? "=>" m.signature with
    | some (before, _) => before
    | none => m.signature
  head.elem '(' && !nonMethodWords.any fun w => Text.hasWord w (Text.beforeFirst '(' head)

structure TypeBlock where
  kind : DeclarationKind
  name : Text
  attributeText : Text
  doc : Option Text
  namespaceName : Option Text
  start : Nat
  stop : Nat
  typeParameters : List Text
  baseTypes : List Text
  /-- the parameter list after the name, if there is one -/
  positional : Option Text
  body : Text
  members : List MemberBlock
  deriving DecidableEq, Repr

/-- attribute names that make any type a controller -/
def controllerMarks : List Text := ["ApiController", "Route", "RoutePrefix"]

/-- does some word of a base type end as a controller's name? -/
def namesController (base : Text) : Bool :=
  (Text.runs base).any fun run => Text.endsWith "Controller" run.word || Text.endsWith "ControllerBase" run.word

/-- a type is a controller if its attributes mention a controller mark, or if it is a class with a controller's name or
a controller among its bases -/
def TypeBlock.isController (b : TypeBlock) : Bool :=
  controllerMarks.any (Text.hasWord · b.attributeText) ||
    (b.kind == .classType && (Text.endsWith "Controller" b.name || b.baseTypes.any namesController))

theorem TypeBlock.isController_of_class_name (b : TypeBlock) (hk : b.kind = .classType)
    (hn : Text.endsWith "Controller" b.name = true) : b.isController = true := by
  rw [isController, hn, hk]
  simp

end EndpointSurvey
