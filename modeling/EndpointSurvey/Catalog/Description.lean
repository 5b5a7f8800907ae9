/-
What a type declaration tells a catalog: its settable properties, its members if it is an enumeration, and its base
class.
-/
import EndpointSurvey.Attribute.Groups
import EndpointSurvey.Catalog.Basic
import EndpointSurvey.Catalog.TypeForm
import EndpointSurvey.Declaration.TypeText
import EndpointSurvey.Declaration.TypeBlocks

namespace EndpointSurvey

/-! ## Properties with accessors -/

def propertyModifiers : List Text :=
  ["public", "required", "virtual", "override", "new", "sealed", "abstract", "readonly"]

/-- modifiers that keep a property from clients -/
def hidingModifiers : List Text := ["private", "protected", "internal", "static", "const"]

def accessWords : List Text := ["private", "protected"]

/-- does the text before a word, given in reverse, end in an access modifier and a blank? -/
def marked (before : Text) : Bool :=
  before.head?.any blank && accessWords.any fun word => Text.startsWith word.reverse (before.dropWhile blank)

/-- is there a `set` or `init` accessor without an access modifier of its own? -/
def settable (accessors : Text) : Bool :=
  (Text.runs (mask true accessors)).any fun run =>
    (run.word = ("set" : Text) || run.word = ("init" : Text)) && !marked run.before

/-- the words of a property's heading after its modifiers, and these; nothing if they hide it -/
def visible? (signature : Text) : Option (List Text × List Text) :=
  let words := signature.words
  let modifiers := words.takeWhile fun w => propertyModifiers.contains w || hidingModifiers.contains w
  let hidden := modifiers.any (hidingModifiers.contains ·) && !modifiers.contains "public"
  if hidden || modifiers.contains "static" then none else some (modifiers, words.drop modifiers.length)

/-- the attributes that rename a property in JSON -/
def renamingAttributes : List Text := ["JsonPropertyName", "JsonProperty"]

/-- the JSON name that a property's attributes give, the last one written -/
def jsonNameOf (found : List Attribute) : Option Text :=
  ((found.filter fun a => renamingAttributes.contains a.name).filterMap fun a =>
    match a.primary? with
    | some (c :: cs) => some (c :: cs)
    | _ => none).getLast?

/-- the type and the name at the end of a heading's words -/
def typeAndName? (words : List Text) : Option (Text × Text) := do
  let (before, name) ← Text.trailingIdentifier? (Text.join " " words)
  let typeText := tidyType before.trim
  if typeText.isEmpty then none else some (typeText, name)

/-- the property that a member declares, if clients can set it -/
def propertyOf (m : MemberBlock) : Traced (Option Property) :=
  let heading := m.signature
  let excluded := m.isMethod || m.terminator ≠ .block || heading.isEmpty || Text.startsWith "=" heading ||
    Text.contains " this[" heading || !settable m.accessorText
  let found := do
    let (modifiers, words) ← if excluded then none else visible? heading
    let (typeText, name) ← if words.length < 2 then none else typeAndName? words
    some (modifiers, typeText, name)
  match found with
  | none => pure none
  | some (modifiers, typeText, name) => do
    let marks ← (attributes none m.attributeText).unreported
    pure (some
      { name := name
        typeText := typeText
        comment := m.doc
        jsonName := jsonNameOf marks
        required := modifiers.contains "required" || Attribute.has "Required" marks })

/-! ## Positional parameters and enumeration members -/

/-- a part of a list without its attribute groups, up to an equals sign -/
def declared (part : Text) : Text := Text.trim (Text.beforeFirst '=' (replaceGroups [] part))

/-- the property of a positional parameter `type name` -/
def positionalProperty? (part : Text) : Option Property :=
  let text := declared part
  let name := Text.takeEnd (!blank ·) text
  let typeText := Text.trimRight (text.take (text.length - name.length))
  if name.head?.any identifierStart && name.all wordChar && !typeText.isEmpty then
    some ⟨name, tidyType typeText, none, none, false⟩
  else none

/-- the members that an enumeration's body lists -/
def enumMembersOf (body : Text) : List Text :=
  ((splitTop ',' false (mask true body)).map declared).filter fun name =>
    name.head?.any identifierStart && name.all wordChar

/-! ## Base class and the whole declaration -/

/-- is the name one of an interface, an I and a capital letter? -/
def namesInterface : Text → Bool
  | 'I' :: c :: _ => c.isUpper
  | _ => false

/-- the first base that is no interface, without constructor arguments -/
def baseClass? (bases : List Text) : Option Text :=
  (bases.find? fun base => !namesInterface (unqualified (base.takeWhile fun c => c != '<' && c != '('))).map fun base =>
    Text.trim (Text.beforeFirst '(' base)

/-- adds a property unless its name is taken -/
def addProperty (properties : List Property) (p : Property) : List Property :=
  if properties.any (·.name == p.name) then properties else properties ++ [p]

/-- what a declaration tells the catalog -/
def describe (b : TypeBlock) : Traced TypeDescriptor :=
  match b.kind with
  | .enumType => pure ⟨b.name, .enumType, [], none, [], enumMembersOf b.body, b.doc⟩
  | kind => do
    let positional := (splitTop ',' true (b.positional.getD [])).filterMap positionalProperty?
    let found ← Traced.filterMapList propertyOf b.members
    pure ⟨b.name, kind, found.foldl addProperty positional, baseClass? b.baseTypes, b.typeParameters, [], b.doc⟩

/-- the catalog of the types that a document declares; controllers are none of them -/
def Catalog.ofBlocks (blocks : List TypeBlock) : Traced Catalog := do
  let descriptors ← Traced.mapList describe (blocks.filter (!·.isController))
  let catalog := Catalog.ofList descriptors
  Traced.emit (.catalogued catalog.size)
  pure catalog

end EndpointSurvey
