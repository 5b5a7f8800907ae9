/-
What the reports of a survey come to: the endpoints found, the types of the whole project, and the counts.

Main statements: `tally_total` (counting by key loses nothing) and `projectCatalog_eq_foldl` (the project's types are
the types of its files, added file by file).
-/
import EndpointSurvey.Project.Survey

namespace EndpointSurvey

/-- an endpoint and the path of its file in reports -/
structure Finding where
  path : Text
  endpoint : Endpoint
  deriving DecidableEq, Repr

/-- how often each key occurs, in order of first occurrence -/
def tally (keys : List Text) : Entries Nat :=
  keys.foldl (fun counts key => Entries.insert key ((Entries.lookup? key counts).getD 0 + 1) counts) []

def sum (counts : List Nat) : Nat := counts.foldr (· + ·) 0

/-- the sum of the counts -/
def total (counts : Entries Nat) : Nat := sum (counts.map (·.2))

theorem total_insert (key : Text) (counts : Entries Nat) :
    total (Entries.insert key ((Entries.lookup? key counts).getD 0 + 1) counts) = total counts + 1 := by
  induction counts with
  | nil => rfl
  | cons entry rest ih =>
    obtain ⟨k, n⟩ := entry
    by_cases h : k = key
    · simp [Entries.insert, Entries.lookup?, h, total, sum]
      omega
    · simp only [total, sum] at ih
      simp [Entries.insert, Entries.lookup?, h, total, sum, ih]
      omega

theorem tally_total (keys : List Text) : total (tally keys) = keys.length := by
  have general : ∀ counts : Entries Nat,
      total (keys.foldl (fun counts key => Entries.insert key ((Entries.lookup? key counts).getD 0 + 1) counts) counts)
        = total counts + keys.length := by
    induction keys with
    | nil => intro counts; rfl
    | cons key rest ih =>
      intro counts
      rw [List.foldl_cons, ih, total_insert, List.length_cons]
      omega
  simpa [tally, total, sum] using general []

structure Summary where
  counts : FileCounts
  controllers : Nat
  endpoints : Nat
  types : Nat
  byMethod : Entries Nat
  warnings : Entries Nat
  deriving DecidableEq, Repr

namespace Survey

/-- the endpoints of a report with its path -/
def findingsIn (report : FileReport) : List Finding := report.document.endpoints.map (⟨report.path, ·⟩)

def findings (s : Survey) : List Finding := s.reports.flatMap findingsIn

/-- the endpoints of one verb, in any case, or all of them -/
def findingsOf (method : Option Text) (s : Survey) : List Finding :=
  match method with
  | none => s.findings
  | some method => s.findings.filter (·.endpoint.method == method.upper)

/-- every type that the surveyed files declare -/
def projectCatalog (s : Survey) : Catalog := Catalog.ofList (s.reports.flatMap (·.document.catalog.types))

theorem projectCatalog_eq_foldl (s : Survey) :
    s.projectCatalog = s.reports.foldl (fun c report => report.document.catalog.types.foldl Catalog.add c) .empty := by
  simp [projectCatalog, Catalog.ofList, List.foldl_flatMap]

def warnings (s : Survey) : List Warning := s.reports.flatMap (·.document.warnings)

def summary (s : Survey) : Summary :=
  { counts := s.counts
    controllers := sum (s.reports.map (·.document.controllers.length))
    endpoints := sum (s.reports.map (·.document.endpoints.length))
    types := sum (s.reports.map (·.document.catalog.size))
    byMethod := tally (s.findings.map (·.endpoint.method))
    warnings := tally (s.warnings.map (·.kind.name)) }

end Survey

end EndpointSurvey
