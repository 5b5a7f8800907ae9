/-
Binding each parameter of an action to a part of the request: by its attribute; else a file to the form, a name that is
a free route token to the path, and any other by the verb's rule. Route parameters and route tokens that do not pair up
are warned of.
-/
import EndpointSurvey.Attribute.Groups
import EndpointSurvey.Binding.Basic
import EndpointSurvey.Diagnostic.Event

namespace EndpointSurvey

namespace Binding

/-- what parameters are bound against -/
structure Context where
  method : Text
  /-- the route's tokens by their small-letter names -/
  tokens : Entries Text
  catalog : Catalog
  location : Option Location

/-- route tokens by their small-letter names; of names equal but for case the last spelling counts -/
def tokensByName (tokens : List Text) : Entries Text := Entries.ofList (tokens.map fun t => (t.lower, t))

/-- the tokens that have a parameter, by small-letter name, with that parameter's name -/
abbrev Holders := Entries Text

/-- does the framework supply the parameter? -/
def injected (marks : List Attribute) (raw : RawParameter) : Bool :=
  Attribute.has "FromServices" marks ||
    serviceTypes.contains (unqualified (Text.dropEnd (· == '?') raw.typeText)).lower

/-- the first attribute that names a source, with the source -/
def sourceAttribute? (marks : List Attribute) : Option (Attribute × BindingSource) :=
  marks.findSome? fun a => (Entries.lookup? a.name sourceAttributes).map (a, ·)

/-- the name a parameter goes by in the request -/
def bindingName (mark : Option (Attribute × BindingSource)) (raw : RawParameter) : Text :=
  match mark.bind fun (a, _) => a.named? "Name" with
  | some (c :: cs) => c :: cs
  | _ => raw.name

/-- the source of a parameter of this name and type, given the tokens held before it -/
def sourceOf (context : Context) (holders : Holders) (mark : Option (Attribute × BindingSource)) (name : Text)
    (resolved : ResolvedType) : BindingSource :=
  let key := name.lower
  let rule := ruleFor context.method
  match mark with
  | some (_, source) => source
  | none =>
    if resolved.isFile then .form
    else if (Entries.lookup? key context.tokens).isSome && (Entries.lookup? key holders).isNone then .path
    else if resolved.isSimple then rule.simple
    else rule.complex

/-- binds one parameter that has these attributes -/
def bindOne (context : Context) (holders : Holders) (marks : List Attribute) (raw : RawParameter) : Parameter :=
  let mark := sourceAttribute? marks
  let name := bindingName mark raw
  let resolved := context.catalog.resolve raw.typeText
  { name := name
    typeText := raw.typeText
    source := sourceOf context holders mark name resolved
    required := raw.default.isNone && !isNullable raw.typeText
    default := raw.default
    isCollection := resolved.isCollection
    isFile := resolved.isFile
    variableName := raw.name
    explicitSource := mark.isSome }

/-- the holders after a parameter, and what is wrong with it as a holder -/
def hold (context : Context) (holders : Holders) (p : Parameter) : Holders × Option Problem :=
  let key := p.name.lower
  if p.source = .path then
    match Entries.lookup? key context.tokens, Entries.lookup? key holders with
    | none, _ => (holders, some (.missingToken p.name))
    | some token, some first => (holders, some (.tokenTakenTwice token first p.name))
    | some _, none => (Entries.insert key p.name holders, none)
  else (holders, none)

/-- parameters bound in turn, with the problems of the tokens they hold and the holders in the end -/
structure Outcome where
  parameters : List Parameter
  problems : List Problem
  holders : Holders

def bindAll (context : Context) (holders : Holders) : List RawParameter → Traced Outcome
  | [] => pure ⟨[], [], holders⟩
  | raw :: rest => do
    let marks ← attributes context.location raw.attributeText
    if injected marks raw then
      Traced.emit (.parameterInjected raw.name raw.typeText)
      bindAll context holders rest
    else
      let p := bindOne context holders marks raw
      let (holders, problem) := hold context holders p
      let others ← bindAll context holders rest
      pure ⟨p :: others.parameters, problem.toList ++ others.problems, others.holders⟩

/-- the tokens that nothing holds -/
def unheld (context : Context) (holders : Holders) : List Problem :=
  (context.tokens.filter fun (key, _) => (Entries.lookup? key holders).isNone).map fun (_, token) => .unboundToken token

end Binding

/-- the parameters of an action with the warnings of its route's mismatches -/
structure BoundParameters where
  parameters : List Parameter
  warnings : List Warning
  deriving DecidableEq, Repr

/-- binds the parameters of an action; the mismatches are reported when all have been bound -/
def bindParameters (context : Binding.Context) (subject : Option Text) (raws : List RawParameter) :
    Traced BoundParameters := do
  let outcome ← Binding.bindAll context [] raws
  let problems := outcome.problems ++ Binding.unheld context outcome.holders
  let warnings := problems.map fun problem => ⟨problem, context.location, subject⟩
  let _ ← Traced.mapList (fun w => Traced.emit (.reported w)) warnings
  pure ⟨outcome.parameters, warnings⟩

end EndpointSurvey
