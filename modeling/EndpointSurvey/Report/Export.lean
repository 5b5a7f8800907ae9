/-
The document that a survey writes: the target, the summary, the files with their controllers, types and warnings, and
the endpoints with their sample requests, as JSON.

Main statement: `endpointEntries_length` (the document has an entry for each endpoint).
-/
import EndpointSurvey.Clock.Instant
import EndpointSurvey.Project.Requests

namespace EndpointSurvey

/-- the version that documents and the command line name -/
def version : Text := "1.0.0"

namespace Report

def optionalText (t : Option Text) : Json := Json.ofOption Json.string t

def textMembers (entries : Entries Text) : Json := .object (entries.map fun (key, value) => (key, .string value))

def countMembers (counts : Entries Nat) : Json := .object (counts.map fun (key, n) => (key, .ofNat n))

def warningValue (w : Warning) : Json :=
  Json.record
    [("kind", .string w.kind.name), ("message", .string w.message),
      ("line", Json.ofOption Json.ofNat (w.location.map (·.line))),
      ("column", Json.ofOption Json.ofNat (w.location.map (·.column))), ("subject", optionalText w.subject)]

def warningValues (ws : List Warning) : Json := .array (ws.map warningValue)

def controllerValue (c : Controller) : Json :=
  Json.record
    [("name", .string c.name), ("short_name", .string c.shortName), ("base_route", .string c.baseRoute),
      ("namespace", optionalText c.namespaceName), ("source_range", .array [.ofNat c.start, .ofNat c.stop]),
      ("auth_required", .bool c.authRequired)]

def propertyValue (p : Property) : Json :=
  Json.record [("name", .string p.name), ("type", .string p.typeText), ("comment", optionalText p.comment)]

/-- a type; its base and its members are left out where there are none -/
def typeValue (d : TypeDescriptor) : Json :=
  let base := match firstGiven d.baseType none with
    | some t => [("base_type", Json.string t)]
    | none => []
  let members := if d.enumMembers.isEmpty then [] else [("enum_members", Json.texts d.enumMembers)]
  Json.record
    ([("name", .string d.name), ("kind", .string d.kind.name), ("properties", .array (d.properties.map propertyValue))]
      ++ base ++ members)

def parameterValue (p : Parameter) : Json :=
  Json.record
    [("name", .string p.name), ("type", .string p.typeText), ("source", .string p.source.name),
      ("required", .bool p.required), ("default", optionalText p.default), ("is_collection", .bool p.isCollection),
      ("is_file", .bool p.isFile)]

def requestValue (r : Request) : Json :=
  Json.record
    [("method", .string r.method), ("url", .string r.url), ("headers", textMembers r.headers),
      ("query", textMembers r.query), ("path_params", textMembers r.pathParameters), ("body", r.body),
      ("form_fields", .array (r.formFields.map fun f =>
        Json.record [("name", .string f.name), ("value", .string f.value), ("is_file", .bool f.isFile)])),
      ("warnings", warningValues r.warnings)]

/-- an endpoint with its file, and with its request if one was made -/
def endpointValue (f : Finding) (request : Option Request) : Json :=
  let e := f.endpoint
  let made := match request with
    | some r => [("request", requestValue r)]
    | none => []
  Json.record
    ([("file", .string f.path), ("method", .string e.method), ("route", .string e.route),
      ("parameters", .array (e.parameters.map parameterValue)), ("return_type", .string e.returnType),
      ("method_name", .string e.action), ("controller", .string e.controller), ("line", .ofNat e.location.line),
      ("column", .ofNat e.location.column), ("summary", optionalText e.summary),
      ("auth_required", .bool e.authRequired), ("warnings", warningValues e.warnings)] ++ made)

/-- the entries of endpoints, with the requests in the same order -/
def endpointEntries (found : List Finding) (requests : Option (List Request)) : List Json :=
  found.mapIdx fun i f => endpointValue f (requests.bind (·[i]?))

theorem endpointEntries_length (found : List Finding) (requests : Option (List Request)) :
    (endpointEntries found requests).length = found.length := by
  simp [endpointEntries]

def fileValue (report : FileReport) : Json :=
  Json.record
    [("path", .string report.path), ("fingerprint", .string report.document.fingerprint),
      ("controllers", .array (report.document.controllers.map controllerValue)),
      ("types", .array (report.document.catalog.types.map typeValue)),
      ("warnings", warningValues report.document.warnings)]

def summaryValue (s : Summary) : Json :=
  Json.record
    [("files_analyzed", .ofNat s.counts.analyzed), ("files_skipped", .ofNat s.counts.skipped),
      ("files_errored", .ofNat s.counts.errored), ("controllers", .ofNat s.controllers),
      ("endpoints", .ofNat s.endpoints), ("types", .ofNat s.types), ("by_method", countMembers s.byMethod),
      ("warnings", countMembers s.warnings)]

/-- the document of a survey at an instant, for a target as it was given -/
def documentValue (s : Survey) (target : Text) (now : Instant) (found : List Finding)
    (requests : Option (List Request)) : Json :=
  Json.record
    [("timestamp", .string (now.date ++ 'T' :: now.timeOfDay)), ("target", .string target),
      ("version", .string version), ("summary", summaryValue s.summary), ("files", .array (s.reports.map fileValue)),
      ("endpoints", .array (endpointEntries found requests))]

end Report

end EndpointSurvey
