/-
Environments: where requests are sent. A draft holds what was given; an environment has passed every check, which are
made in one order.

Main statement: `composeUrl_root` (the root of an environment is its base URL and its base path).
-/
import EndpointSurvey.Entries
import EndpointSurvey.Json.Printer
import EndpointSurvey.Text.Blank
import EndpointSurvey.Url.Parts

namespace EndpointSurvey

/-- an environment as it is given -/
structure EnvironmentDraft where
  name : Text
  baseUrl : Text
  basePath : Text
  headers : Entries Json

/-- an environment that requests can be sent to -/
structure Environment where
  name : Text
  baseUrl : Text
  basePath : Text
  headers : Entries Text
  deriving DecidableEq, Repr

/-- what is wrong with environments -/
inductive EnvironmentError where
  | blankName
  | badBaseUrl (name baseUrl : Text)
  | queryOrFragment (name : Text)
  | relativeBasePath (name basePath : Text)
  | headerNotText (name key : Text)
  /-- the authority of the base URL is at fault -/
  | badAuthority (fault : Url.Fault)
  /-- an entry that is no object -/
  | entryNotObject (typeName : Text)
  | headersNotObject
  | unknownName (wanted : Text) (known : List Text)
  /-- a file that is no JSON text -/
  | malformedFile (path : Text)
  | fileNotObject (path : Text)
  | fileEmpty (path : Text)
  deriving DecidableEq, Repr

namespace EnvironmentError

def message : EnvironmentError → Text
  | blankName => "Environment name must not be empty"
  | badBaseUrl name baseUrl => "Environment '" ++ name ++ "' has an invalid base URL: " ++ Text.quoted baseUrl
  | queryOrFragment name => "Environment '" ++ name ++ "' base URL must not carry a query or fragment"
  | relativeBasePath name basePath =>
    "Environment '" ++ name ++ "' base path must start with '/': " ++ Text.quoted basePath
  | headerNotText name key =>
    "Environment '" ++ name ++ "' header " ++ Text.quoted key ++ " must map a string to a string"
  | badAuthority fault => fault.message
  | entryNotObject typeName => "Environment entry must be a mapping, got " ++ typeName
  | headersNotObject => "Environment headers must be a mapping"
  | unknownName wanted known =>
    let none : Text := "none"
    let listing := Text.join ", " known
    "Unknown environment '" ++ wanted ++ "' (known: " ++ (if listing.isEmpty then none else listing) ++ ")"
  | malformedFile path => "Cannot parse environments file " ++ path
  | fileNotObject path => "Environments file " ++ path ++ " must contain a mapping"
  | fileEmpty path => "Environments file " ++ path ++ " defines no environments"

end EnvironmentError

namespace Environment

/-- the headers as texts, or the first that is none -/
def textHeaders (name : Text) : Entries Json → Except EnvironmentError (Entries Text)
  | [] => .ok []
  | (key, .string value) :: rest => (textHeaders name rest).map ((key, value) :: ·)
  | (key, _) :: _ => .error (.headerNotText name key)

def slash (c : Char) : Bool := c == '/'

end Environment

namespace EnvironmentDraft

/-- checks a draft: its name, its base URL, its base path and its headers, in this order -/
def validate (d : EnvironmentDraft) : Except EnvironmentError Environment := do
  if d.name.trim.isEmpty then throw .blankName
  let parts ← (Url.Parts.ofText? d.baseUrl).mapError .badAuthority
  if (parts.scheme ≠ ("http" : Text) ∧ parts.scheme ≠ ("https" : Text)) ∨ parts.authority.isEmpty then
    throw (.badBaseUrl d.name d.baseUrl)
  if !parts.query.isEmpty || !parts.fragment.isEmpty then throw (.queryOrFragment d.name)
  if !d.basePath.isEmpty && d.basePath.head? ≠ some '/' then throw (.relativeBasePath d.name d.basePath)
  let headers ← Environment.textHeaders d.name d.headers
  pure ⟨d.name, d.baseUrl, d.basePath, headers⟩

end EnvironmentDraft

namespace Environment

/-- base URL, base path and route with single slashes between them -/
def composeUrl (e : Environment) (route : Text) : Text :=
  let base := Text.dropEnd slash e.baseUrl ++ Text.dropEnd slash e.basePath
  if !route.all slash then base ++ '/' :: route.dropWhile slash
  else if base.isEmpty then ['/']
  else base

theorem composeUrl_root (e : Environment) (h : Text.dropEnd slash e.baseUrl ≠ []) :
    e.composeUrl ['/'] = Text.dropEnd slash e.baseUrl ++ Text.dropEnd slash e.basePath := by
  simp [composeUrl, slash] at h ⊢
  intro hb
  exact absurd hb h

end Environment

namespace EnvironmentDraft

/-- the URL of a route; the draft is checked first -/
def url? (d : EnvironmentDraft) (route : Text) : Except EnvironmentError Text := d.validate.map (·.composeUrl route)

/-- the members of headers that are given as an object, or not at all -/
def givenHeaders : Json → Except EnvironmentError (Entries Json)
  | .object members => pure members
  | other => if other.isEmpty then pure [] else throw .headersNotObject

/-- the draft that an object describes; every value is taken as text -/
def ofJson? (j : Json) : Except EnvironmentError EnvironmentDraft := do
  match j with
  | .object _ =>
    let given := fun (names : List Text) => (names.findSome? (j.member? ·)).getD (.string [])
    let basePath := given ["base_path", "basePath"]
    let headers ← givenHeaders (given ["headers"])
    pure
      { name := (given ["name"]).plain
        baseUrl := (given ["base_url", "baseUrl"]).plain
        basePath := if basePath.isEmpty then [] else basePath.plain
        headers := headers.map fun (key, value) => (key, .string value.plain) }
  | other => throw (.entryNotObject other.typeName)

end EnvironmentDraft

namespace Environment

/-- the environment that an object describes -/
def ofJson? (j : Json) : Except EnvironmentError Environment := do
  let draft ← EnvironmentDraft.ofJson? j
  draft.validate

end Environment

end EndpointSurvey
