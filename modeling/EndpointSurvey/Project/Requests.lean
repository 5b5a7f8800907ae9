/-
Sample requests for the endpoints of a survey. Each is made with the types of its own file first and those of the whole
project after them.

Main statement: `requestsFrom_length` (if no request fails, there is one for each endpoint).
-/
import EndpointSurvey.Report.Summary
import EndpointSurvey.Request.Synthesis

namespace EndpointSurvey

namespace Environment

/-- the environment as it would be given again -/
def draft (e : Environment) : EnvironmentDraft :=
  ⟨e.name, e.baseUrl, e.basePath, e.headers.map fun (key, value) => (key, .string value)⟩

end Environment

namespace Survey

/-- the catalog for the requests of each file, by its path in reports -/
def requestCatalogs (s : Survey) : Entries Catalog :=
  let project := s.projectCatalog
  s.reports.map fun report => (report.path, (Catalog.ofList report.document.catalog.types).withFallback project)

/-- requests for endpoints one after another, up to the first that fails; the first choice is always taken -/
def requestsFrom (catalogs : Entries Catalog) (now : Instant) (environment : Option EnvironmentDraft) :
    List Finding → Traced (Except RequestError (List Request))
  | [] => pure (.ok [])
  | f :: rest => do
    let catalog := (Entries.lookup? f.path catalogs).getD .empty
    match ← (synthesize ⟨catalog, now⟩ (Picker.cycle []) 0 environment f.endpoint).1 with
    | .error e => pure (.error e)
    | .ok request =>
      match ← requestsFrom catalogs now environment rest with
      | .error e => pure (.error e)
      | .ok requests => pure (.ok (request :: requests))

/-- a sample request for each endpoint -/
def requests (s : Survey) (now : Instant) (environment : Option EnvironmentDraft) (found : List Finding) :
    Traced (Except RequestError (List Request)) :=
  requestsFrom s.requestCatalogs now environment found

theorem requestsFrom_length {catalogs : Entries Catalog} {now : Instant} {environment : Option EnvironmentDraft}
    {found : List Finding} {made : List Request}
    (h : (requestsFrom catalogs now environment found).value = .ok made) : made.length = found.length := by
  induction found generalizing made with
  | nil => cases h; rfl
  | cons f rest ih =>
    unfold requestsFrom at h
    simp only [bind] at h
    split at h
    · cases h
    · split at h
      · cases h
      · next tail ht =>
        cases h
        simp [ih ht]

end Survey

end EndpointSurvey
