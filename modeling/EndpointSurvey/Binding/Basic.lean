/-
Parameters of an action and the parts of a request that they are bound from.

Main statement: `Binding.ruleFor_simple` (simple parameters come from the query under every verb).
-/
import EndpointSurvey.Attribute.Basic
import EndpointSurvey.Catalog.Resolution

namespace EndpointSurvey

/-- the part of a request that a parameter's value comes from -/
inductive BindingSource where
  | path
  | query
  | header
  | body
  | form
  deriving DecidableEq, Repr

def BindingSource.name : BindingSource → Text
  | .path => "path"
  | .query => "query"
  | .header => "header"
  | .body => "body"
  | .form => "form"

/-- one entry of a parameter list as it is written -/
structure RawParameter where
  attributeText : Text
  typeText : Text
  name : Text
  default : Option Text
  deriving DecidableEq, Repr

structure Parameter where
  /-- the name in the request -/
  name : Text
  typeText : Text
  source : BindingSource
  required : Bool
  default : Option Text
  isCollection : Bool
  isFile : Bool
  /-- the name in the code -/
  variableName : Text
  /-- an attribute says where it is bound from -/
  explicitSource : Bool
  deriving DecidableEq, Repr

namespace Binding

/-- the attributes that say where a parameter is bound from -/
def sourceAttributes : List (Text × BindingSource) :=
  [("FromQuery", .query), ("FromUri", .query), ("FromBody", .body), ("FromHeader", .header), ("FromForm", .form),
    ("FromRoute", .path)]

/-- types that the framework supplies, in small letters -/
def serviceTypes : List Text :=
  ["cancellationtoken", "httpcontext", "httprequest", "httpresponse", "claimsprincipal", "iserviceprovider"]

/-- where simple and other parameters are bound from without an attribute -/
structure VerbRule where
  simple : BindingSource
  complex : BindingSource
  deriving DecidableEq, Repr

def withBody : VerbRule := ⟨.query, .body⟩

def withoutBody : VerbRule := ⟨.query, .query⟩

/-- the number of the rules in force; results of other rules are out of date -/
def ruleVersion : Nat := 1

def verbRules : List (Text × VerbRule) :=
  [("GET", withoutBody), ("DELETE", withoutBody), ("HEAD", withoutBody), ("OPTIONS", withoutBody), ("POST", withBody),
    ("PUT", withBody), ("PATCH", withBody)]

/-- the rule of a verb, written in any case; an unknown verb is treated as one with a body -/
def ruleFor (method : Text) : VerbRule := (Entries.lookup? method.upper verbRules).getD withBody

theorem ruleFor_simple (method : Text) : (ruleFor method).simple = .query := by
  unfold ruleFor
  cases h : Entries.lookup? method.upper verbRules with
  | none => rfl
  | some rule =>
    have found := Entries.mem_of_lookup? h
    have all : ∀ r ∈ verbRules, r.2.simple = .query := by simp [verbRules, withBody, withoutBody]
    exact all _ found

end Binding

end EndpointSurvey
