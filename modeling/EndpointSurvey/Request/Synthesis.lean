/-
One sample request for an endpoint: the tokens of its route, then query, headers, form and body are filled, and an
environment, if there is one, gives the address and further headers.
-/
import EndpointSurvey.Diagnostic.Event
import EndpointSurvey.Document.Basic
import EndpointSurvey.Request.Filling
import EndpointSurvey.Route.Token
import EndpointSurvey.Url.Quoting

namespace EndpointSurvey

namespace Request

def acceptHeader : Text := "Accept"

def contentTypeHeader : Text := "Content-Type"

def jsonContent : Text := "application/json"

def formContent : Text := "multipart/form-data"

/-- the parameters of a list by their small-letter names; of equal names the last counts -/
def byName (parameters : List Parameter) (token : Text) : Option Parameter :=
  parameters.reverse.find? fun p => p.name.lower == token.lower

/-- the tokens to fill: those the endpoint names, then those that only its template has -/
def tokensToFill (e : Endpoint) : List Text := addNames e.pathTokens (Route.tokenNames e.route)

/-- the value of a token: that of its parameter, or one made up from its name -/
def tokenSkeleton (setting : Skeleton.Setting) (parameters : List Parameter) (token : Text) : Skeleton :=
  match byName parameters token with
  | some p => Skeleton.ofTextType setting [] p.name (setting.catalog.resolve p.typeText)
  | none => .noted (.tokenFilledFromName token) (Skeleton.named setting token)

/-- the skeletons of the tokens by their small-letter names -/
def pathSkeletons (setting : Skeleton.Setting) (e : Endpoint) : List (Text × Skeleton) :=
  (tokensToFill e).map fun token => (token.lower, tokenSkeleton setting (e.parametersFrom .path) token)

/-- the entries of a query -/
def querySkeletons (setting : Skeleton.Setting) (e : Endpoint) : List Skeleton.Entry :=
  (e.parametersFrom .query).flatMap (Skeleton.ofParameter setting)

def headerSkeletons (setting : Skeleton.Setting) (e : Endpoint) : List (Text × Skeleton) :=
  (e.parametersFrom .header).map fun p =>
    (p.name, Skeleton.ofTextType setting [] p.name (setting.catalog.resolve p.typeText))

/-- the entries of a form; a file stands for itself -/
def formSkeletons (setting : Skeleton.Setting) (e : Endpoint) : List Skeleton.Entry :=
  (e.parametersFrom .form).flatMap fun p =>
    if p.isFile then [⟨p.name, .text Skeleton.fileMark, true⟩] else Skeleton.ofParameter setting p

/-- the body: the one body parameter, or an object of several -/
def bodySkeleton (setting : Skeleton.Setting) (e : Endpoint) : Skeleton :=
  let value := fun (p : Parameter) => Skeleton.ofType setting [] p.name (setting.catalog.resolve p.typeText)
  match e.parametersFrom .body with
  | [] => .cut
  | [p] => value p
  | ps => .members (ps.map fun p => (p.name, value p))

/-- writes entries into headers, one after another -/
def withHeaders (headers : Entries Text) (entries : List (Text × Text)) : Entries Text :=
  entries.foldl (fun headers (key, value) => Entries.insert key value headers) headers

/-- the header that says what the content is -/
def contentHeaders (form : List FormField) (bodies : List Parameter) : List (Text × Text) :=
  if !form.isEmpty then [(contentTypeHeader, formContent)]
  else if !bodies.isEmpty then [(contentTypeHeader, jsonContent)]
  else []

/-- the URL of a filled route, with a query if there is one -/
def address (environment : Option Environment) (route : Text) (query : Entries Text) : Text :=
  let url := match environment with
    | some environment => environment.composeUrl route
    | none => route
  if query.isEmpty then url else url ++ '?' :: Url.writeQuery query

/-- the environment, once it has passed its checks -/
def checked : Option EnvironmentDraft → Filling (Option Environment)
  | none => pure none
  | some draft =>
    match draft.validate with
    | .ok environment => pure (some environment)
    | .error e => throw (.environment e)

/-- fills the request of an endpoint; its warnings are still to come -/
def build (setting : Skeleton.Setting) (picker : Picker) (environment : Option EnvironmentDraft) (e : Endpoint) :
    Filling Request := do
  let tokens ← Skeleton.fillTexts picker (pathSkeletons setting e)
  let values := Entries.ofList tokens
  let route := Route.fill (fun token => Url.percentEncode ((Entries.lookup? token.lower values).getD token)) e.route
  let fields ← Skeleton.fillEntries picker (querySkeletons setting e)
  let query := fields.foldl (fun query f => Entries.insertIfAbsent f.name f.value query) []
  let environment ← checked environment
  let given ← Skeleton.fillTexts picker (headerSkeletons setting e)
  let form ← Skeleton.fillEntries picker (formSkeletons setting e)
  let body ← Skeleton.fill picker (bodySkeleton setting e)
  let common := ((environment.map (·.headers)).getD [])
  let headers := withHeaders (withHeaders (withHeaders [(acceptHeader, jsonContent)] common) given)
    (contentHeaders form (e.parametersFrom .body))
  pure
    { method := e.method
      url := address environment route query
      headers := headers
      query := query
      pathParameters := Entries.ofList (e.pathTokens.map fun token =>
        (token, (Entries.lookup? token.lower values).getD token))
      body := body
      formFields := form
      warnings := [] }

end Request

/-- The request of an endpoint, with the number of draws made up to its end, of which some were made before. A request
that fails reports nothing. -/
def synthesize (setting : Skeleton.Setting) (picker : Picker) (draws : Nat) (environment : Option EnvironmentDraft)
    (e : Endpoint) : Traced (Except RequestError Request) × Nat :=
  let (outcome, progress) := (Request.build setting picker environment e).run.run ⟨draws, []⟩
  let warnings := progress.problems.map fun problem => ⟨problem, none, some e.subject⟩
  match outcome with
  | .ok request => (⟨.ok { request with warnings := warnings }, warnings.map .reported⟩, progress.draws)
  | .error e => (pure (.error e), progress.draws)

/-- the requests of endpoints, one after another with one picker -/
def synthesizeAll (setting : Skeleton.Setting) (picker : Picker) (draws : Nat)
    (environment : Option EnvironmentDraft) : List Endpoint → List (Traced (Except RequestError Request)) × Nat
  | [] => ([], draws)
  | e :: rest =>
    let (first, draws) := synthesize setting picker draws environment e
    let (others, draws) := synthesizeAll setting picker draws environment rest
    (first :: others, draws)

end EndpointSurvey
