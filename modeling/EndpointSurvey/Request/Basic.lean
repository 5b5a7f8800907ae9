/-
Sample requests, and the two ways in which making one fails.
-/
import EndpointSurvey.Diagnostic.Warning
import EndpointSurvey.Environment.Basic
import EndpointSurvey.Text.Template

namespace EndpointSurvey

structure FormField where
  name : Text
  value : Text
  isFile : Bool
  deriving DecidableEq, Repr

/-- a sample request with every value filled in -/
structure Request where
  method : Text
  url : Text
  headers : Entries Text
  query : Entries Text
  pathParameters : Entries Text
  body : Json
  formFields : List FormField
  warnings : List Warning

inductive RequestError where
  /-- a type argument cannot be put in -/
  | template (e : Template.Error)
  | environment (e : EnvironmentError)
  deriving DecidableEq, Repr

def RequestError.message : RequestError → Text
  | template e => e.message
  | environment e => e.message

end EndpointSurvey
