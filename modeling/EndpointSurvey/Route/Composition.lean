/-
The route of an action: its controller's route with the action's own, placeholders filled in. Without any route the
conventional one is `[controller]/[action]`.
-/
import EndpointSurvey.Diagnostic.Event
import EndpointSurvey.Route.Basic
import EndpointSurvey.Route.Placeholder

namespace EndpointSurvey

namespace Route

/-- a controller's route with its name filled in -/
def resolveBase (names : RouteNames) (base : Text) : Text :=
  if base.isEmpty then [] else Placeholder.controller.substitute names.controller base

/-- the joined route of an action before it is brought to normal form -/
def joined (names : RouteNames) (base : Text) (method : Option Text) : Text :=
  let fromController := resolveBase names (if base.isEmpty then Placeholder.controller.text else base)
  let method := method.or (if base.isEmpty then some Placeholder.action.text else none)
  let fill := fun t => Placeholder.controller.substitute names.controller (Placeholder.action.substitute names.action t)
  combine (Placeholder.action.substitute names.action fromController) (method.map fill)

/-- the route of an action, given the route of its controller and its own, if it has one -/
def compose (names : RouteNames) (controller base : Text) (method : Option Text) (action : Text) :
    Traced RouteTemplate := do
  let route := normalize (joined names base method)
  Traced.emit (.routeComposed route.template controller action)
  pure route

end Route

end EndpointSurvey
