/-
Reading a document: its types are segmented and catalogued, then every controller's actions become endpoints.
-/
import EndpointSurvey.Binding.Classification
import EndpointSurvey.Binding.ParameterList
import EndpointSurvey.Catalog.Description
import EndpointSurvey.Declaration.Signature
import EndpointSurvey.Digest
import EndpointSurvey.Document.Basic
import EndpointSurvey.Route.Composition

namespace EndpointSurvey

/-- the attributes that give a route -/
def routeAttributes : List Text := ["Route", "RoutePrefix"]

/-- is authorisation required, given what applies without these attributes? -/
def authorized (marks : List Attribute) (inherited : Bool) : Bool :=
  if Attribute.has "AllowAnonymous" marks then false
  else if Attribute.has "Authorize" marks then true
  else inherited

def readController (document : Text) (b : TypeBlock) : Traced Controller := do
  let marks ← attributes (locate document b.start) b.attributeText
  pure
    { name := b.name
      baseRoute := ((Attribute.find? routeAttributes marks).bind (·.primary?)).getD []
      namespaceName := b.namespaceName
      start := b.start
      stop := b.stop
      attributes := marks
      authRequired := authorized marks false }

/-- how much of a heading a warning cites -/
def citedHeading : Nat := 60

/-- the endpoint of an action with this verb and this signature -/
def buildEndpoint (catalog : Catalog) (controller : Controller) (m : MemberBlock) (location : Location)
    (marks : List Attribute) (verbMark : Attribute) (verb : Verb) (signature : Signature) : Traced Endpoint := do
  let names := RouteNames.plain controller.name signature.name
  let own := verbMark.primary?.or ((Attribute.find? routeAttributes marks).bind (·.primary?))
  let route ← Route.compose names controller.name controller.baseRoute own signature.name
  let context : Binding.Context :=
    { method := verb.name
      tokens := Binding.tokensByName route.tokens
      catalog := catalog
      location := some location }
  let subject := controller.name ++ "." ++ signature.name
  let bound ← bindParameters context (some subject) (parameterList signature.parametersText)
  pure
    { method := verb.name
      route := route.template
      parameters := bound.parameters
      returnType := signature.returnType
      action := signature.name
      controller := controller.name
      location := location
      summary := m.doc
      authRequired := authorized marks controller.authRequired
      pathTokens := route.tokens
      warnings := bound.warnings }

/-- the endpoint that a member declares, if it is an action -/
def readEndpoint (document : Text) (catalog : Catalog) (controller : Controller) (m : MemberBlock) :
    Traced (Option Endpoint) :=
  if !m.isMethod || m.attributeText.isEmpty then pure none
  else do
    let location := locate document m.start
    let marks ← attributes (some location) m.attributeText
    match Verb.find? marks with
    | none => pure none
    | some (verbMark, verb) =>
      if Attribute.has "NonAction" marks then pure none
      else match signature? m.signature with
        | none => do
          Traced.warn (.unreadableSignature verbMark.name) location (m.signature.take citedHeading)
          pure none
        | some signature => do
          let e ← buildEndpoint catalog controller m location marks verbMark verb signature
          pure (some e)

/-- a controller with its endpoints -/
def readActions (document : Text) (catalog : Catalog) (b : TypeBlock) : Traced (Controller × List Endpoint) := do
  let controller ← readController document b
  let endpoints ← Traced.filterMapList (readEndpoint document catalog controller) b.members
  pure (controller, endpoints)

/-- the controllers, endpoints and types of a document, its warnings still among the events -/
def surveyText (text : Text) : Traced Document := do
  let blocks ← typeBlocks text
  let catalog ← Catalog.ofBlocks blocks
  let found ← Traced.mapList (readActions text catalog) (blocks.filter (·.isController))
  let controllers := found.map (·.1)
  let endpoints := found.flatMap (·.2)
  Traced.emit (.documentParsed controllers.length endpoints.length catalog.size)
  pure
    { fingerprint := Digest.fingerprint text
      controllers := controllers
      endpoints := endpoints
      catalog := catalog
      warnings := [] }

/-- reads a document -/
def readDocument (text : Text) : Traced Document :=
  let surveyed := surveyText text
  ⟨{ surveyed.value with warnings := surveyed.warnings }, surveyed.events⟩

end EndpointSurvey
