/-
What a document yields: its controllers, their endpoints, its model types, and the warnings of reading it.
-/
import EndpointSurvey.Binding.Basic
import EndpointSurvey.Diagnostic.Warning
import EndpointSurvey.Route.Placeholder

namespace EndpointSurvey

structure Controller where
  name : Text
  baseRoute : Text
  namespaceName : Option Text
  start : Nat
  stop : Nat
  attributes : List Attribute
  authRequired : Bool
  deriving DecidableEq, Repr

def Controller.shortName (c : Controller) : Text := controllerShortName c.name

structure Endpoint where
  /-- the verb; recovered endpoints have one of the known ones -/
  method : Text
  route : Text
  parameters : List Parameter
  returnType : Text
  action : Text
  controller : Text
  location : Location
  summary : Option Text
  authRequired : Bool
  pathTokens : List Text
  warnings : List Warning
  deriving DecidableEq, Repr

namespace Endpoint

/-- the parameters bound from one part of the request -/
def parametersFrom (source : BindingSource) (e : Endpoint) : List Parameter := e.parameters.filter (·.source == source)

def hasRouteMismatch (e : Endpoint) : Bool := e.warnings.any (·.kind == .routeMismatch)

/-- the name of an endpoint in warnings -/
def subject (e : Endpoint) : Text := e.controller ++ "." ++ e.action

end Endpoint

structure Document where
  fingerprint : Text
  controllers : List Controller
  endpoints : List Endpoint
  catalog : Catalog
  warnings : List Warning
  deriving DecidableEq, Repr

end EndpointSurvey
