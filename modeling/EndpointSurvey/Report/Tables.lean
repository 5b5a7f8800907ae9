/-
The tables of endpoints and warnings, row by row, and the panel with the summary.

Main statement: `endpointRows_length_le` (a table of endpoints has one row more than its limit at most).
-/
import EndpointSurvey.Report.Styled
import EndpointSurvey.Report.Summary

namespace EndpointSurvey.Report

/-! ## Endpoints -/

def methodStyles : List (Text × Text) :=
  [("GET", "green"), ("POST", "yellow"), ("PUT", "blue"), ("PATCH", "cyan"), ("DELETE", "red"), ("HEAD", "dim"),
    ("OPTIONS", "dim")]

def methodCell (method : Text) : Span := .styled ((Entries.lookup? method methodStyles).getD "white") method

/-- a parameter with a mark if it may be left out, and where it is bound from -/
def parameterText (p : Parameter) : Text :=
  p.name ++ (if p.required then [] else ['?']) ++ ':' :: p.source.name

def longestRoute : Nat := 40

/-- a route, cut to what a cell holds -/
def shortRoute (route : Text) : Text :=
  if route.length > longestRoute then route.take (longestRoute - 3) ++ "..." else route

def routeCell (e : Endpoint) : Span :=
  if e.hasRouteMismatch then .styled "yellow" (shortRoute e.route) else .unstyled (shortRoute e.route)

def authCell (required : Bool) : Span := if required then .styled "green" "yes" else .styled "dim" "no"

/-- the name of a file and a line in it -/
def placeText (path line : Text) : Text := lastName path ++ ':' :: line

def endpointRow (number : Nat) (f : Finding) : List Span :=
  [.unstyled (Text.ofNat number), methodCell f.endpoint.method, routeCell f.endpoint,
    .unstyled (f.endpoint.controller ++ '.' :: f.endpoint.action),
    .unstyled (Text.join ", " (f.endpoint.parameters.map parameterText)), authCell f.endpoint.authRequired,
    .unstyled (placeText f.path (Text.ofNat f.endpoint.location.line))]

def rowLimit : Nat := 200

/-- the row that stands for the endpoints that are not listed -/
def furtherRow (count : Nat) : List Span :=
  let cells : List Text := ["...", "", "... +" ++ Text.ofNat count ++ " more", "", "", "", ""]
  cells.map .unstyled

def endpointRows (found : List Finding) : List (List Span) :=
  let rows := ((found.take rowLimit).zipIdx 1).map fun (f, number) => endpointRow number f
  if found.length > rowLimit then rows ++ [furtherRow (found.length - rowLimit)] else rows

theorem endpointRows_length_le (found : List Finding) : (endpointRows found).length ≤ rowLimit + 1 := by
  have rows : (((found.take rowLimit).zipIdx 1).map fun (f, number) => endpointRow number f).length ≤ rowLimit := by
    rw [List.length_map, List.length_zipIdx, List.length_take]
    exact Nat.min_le_left ..
  unfold endpointRows
  dsimp only
  split
  · rw [List.length_append]
    exact Nat.add_le_add_right rows 1
  · exact Nat.le_succ_of_le rows

/-! ## Warnings -/

def warningRow (path : Text) (w : Warning) : List Span :=
  let line := match w.location with
    | some location => Text.ofNat location.line
    | none => ['-']
  [w.kind.name, w.message, placeText path line].map .unstyled

def warningRows (reports : List FileReport) : List (List Span) :=
  reports.flatMap fun report => report.document.warnings.map (warningRow report.path)

/-! ## Summary -/

/-- counts in the order of their keys, a line each -/
def countLines (counts : Entries Nat) : Text :=
  let sorted := counts.mergeSort fun a b => Text.le a.1 b.1
  Text.join ['\n'] (sorted.map fun (key, n) => "   " ++ key ++ ": " ++ Text.ofNat n)

/-- the lines about warnings, if there are any -/
def warningSpans (counts : Entries Nat) : List Span :=
  if counts.isEmpty then []
  else [.unstyled "\n\n", .styled "bold yellow" "Warnings:", .unstyled ('\n' :: countLines counts)]

def summarySpans (s : Summary) : List Span :=
  let n := Text.ofNat
  [.unstyled "\n", .styled "bold cyan" " Analysis Summary", .unstyled "\n\n", .styled "bold" "Endpoints:",
    .unstyled (" " ++ n s.endpoints ++ " in " ++ n s.controllers ++ " controllers (" ++ n s.types ++ " types)\n"),
    .styled "bold" "Files Analyzed:",
    .unstyled (" " ++ n s.counts.analyzed ++ " | Skipped: " ++ n s.counts.skipped ++ " | Errors: " ++
      n s.counts.errored ++ "\n\n"),
    .styled "bold cyan" "By Method:", .unstyled ('\n' :: countLines s.byMethod)] ++ warningSpans s.warnings

end EndpointSurvey.Report
