/-
Warnings: what a survey could not read, resolve or fill in with certainty. A warning is a problem, with the place and
the subject it concerns; its kind and its words follow from the problem.

Main statement: `kind_routeMismatch_iff` (which problems are route mismatches).
-/
import EndpointSurvey.Source.Basic

namespace EndpointSurvey

inductive WarningKind where
  | structural
  | routeMismatch
  | unresolvedType
  | ambiguousSample
  deriving DecidableEq, Repr

def WarningKind.name : WarningKind → Text
  | .structural => "StructuralParseWarning"
  | .routeMismatch => "RouteMismatchWarning"
  | .unresolvedType => "TypeResolutionMiss"
  | .ambiguousSample => "SynthesisAmbiguity"

/-- the stage of the survey that speaks -/
inductive Channel where
  | segments
  | types
  | attributes
  | routes
  | binding
  | documents
  | cache
  | commandLine
  | environments
  | requests
  deriving DecidableEq, Repr

def Channel.name : Channel → Text
  | .segments => "endpoint_lens.parsing.segmenter"
  | .types => "endpoint_lens.parsing.type_catalog"
  | .attributes => "endpoint_lens.parsing.attributes"
  | .routes => "endpoint_lens.parsing.routes"
  | .binding => "endpoint_lens.parsing.classifier"
  | .documents => "endpoint_lens.parsing.dotnet"
  | .cache => "endpoint_lens.cache"
  | .commandLine => "endpoint_lens.cli"
  | .environments => "endpoint_lens.synthesis.environment"
  | .requests => "endpoint_lens.synthesis.request_generator"

inductive Problem where
  /-- the angle brackets after a declared name do not close -/
  | openTypeParameters (name : Text)
  /-- the parentheses after a declared name do not close -/
  | openParameters (name : Text)
  /-- neither a brace nor a semicolon follows a declaration -/
  | missingBody (name : Text)
  /-- the body of a declaration does not close -/
  | openBody (name : Text)
  /-- brackets or parentheses in the heading of a member do not close -/
  | unbalancedMember
  /-- an attribute group in front of a member does not close -/
  | openMemberAttributes
  /-- an attribute group does not close -/
  | openAttributeList
  /-- an entry of an attribute group is no name with arguments -/
  | malformedAttribute (entry : Text)
  /-- an action with this verb attribute has no readable heading -/
  | unreadableSignature (verb : Text)
  /-- a parameter is bound from the route, which has no such token -/
  | missingToken (parameter : Text)
  /-- two parameters are bound to one token -/
  | tokenTakenTwice (token first second : Text)
  /-- no parameter is bound to a token -/
  | unboundToken (token : Text)
  /-- a request fills a token that has no parameter -/
  | tokenFilledFromName (token : Text)
  /-- a model has no property that a query or form could carry -/
  | nothingToBind (parameter typeText : Text)
  /-- an enumeration without members -/
  | emptyEnumeration (name : Text)
  /-- a type that no analysed source declares -/
  | undeclaredType (typeName user : Text)
  deriving DecidableEq, Repr

namespace Problem

def kind : Problem → WarningKind
  | openTypeParameters _ | openParameters _ | missingBody _ | openBody _ | unbalancedMember | openMemberAttributes
  | openAttributeList | malformedAttribute _ | unreadableSignature _ => .structural
  | missingToken _ | tokenTakenTwice .. | unboundToken _ | tokenFilledFromName _ => .routeMismatch
  | nothingToBind .. | emptyEnumeration _ => .ambiguousSample
  | undeclaredType .. => .unresolvedType

/-- the stage that reports the problem -/
def channel : Problem → Channel
  | openTypeParameters _ | openParameters _ | missingBody _ | openBody _ | unbalancedMember
  | openMemberAttributes => .segments
  | openAttributeList | malformedAttribute _ => .attributes
  | unreadableSignature _ => .documents
  | missingToken _ | tokenTakenTwice .. | unboundToken _ => .binding
  | tokenFilledFromName _ | nothingToBind .. | emptyEnumeration _ | undeclaredType .. => .requests

def message : Problem → Text
  | openTypeParameters name => "Unterminated type parameter list on '" ++ name ++ "'"
  | openParameters name => "Unterminated parameter list on '" ++ name ++ "'"
  | missingBody name => "Declaration of '" ++ name ++ "' has no body"
  | openBody name => "Unterminated body for '" ++ name ++ "'; block dropped"
  | unbalancedMember => "Unbalanced attribute or parameter list; member skipped"
  | openMemberAttributes => "Unterminated attribute block; member skipped"
  | openAttributeList => "Unterminated attribute list"
  | malformedAttribute entry => "Malformed attribute '" ++ entry ++ "'"
  | unreadableSignature verb => "Could not read the signature of an " ++ verb ++ " action"
  | missingToken parameter =>
    "Parameter '" ++ parameter ++ "' binds from the route but the route has no \x7b" ++ parameter ++ "\x7d token"
  | tokenTakenTwice token first second =>
    "Route token '\x7b" ++ token ++ "\x7d' is bound by both '" ++ first ++ "' and '" ++ second ++ "'"
  | unboundToken token => "Route token '\x7b" ++ token ++ "\x7d' has no matching path parameter"
  | tokenFilledFromName token =>
    "Route token '\x7b" ++ token ++ "\x7d' has no path parameter; filled from its name"
  | nothingToBind parameter typeText => "'" ++ parameter ++ "' (" ++ typeText ++ ") has no bindable properties"
  | emptyEnumeration name => "Enum " ++ name ++ " declares no members"
  | undeclaredType typeName user =>
    "Type '" ++ typeName ++ "' of '" ++ user ++ "' is not declared in the analyzed sources"

theorem kind_routeMismatch_iff (p : Problem) :
    p.kind = .routeMismatch ↔
      (∃ a, p = missingToken a) ∨ (∃ a b c, p = tokenTakenTwice a b c) ∨ (∃ a, p = unboundToken a) ∨
        (∃ a, p = tokenFilledFromName a) := by
  cases p <;> simp [kind]

end Problem

structure Warning where
  problem : Problem
  location : Option Location
  subject : Option Text
  deriving DecidableEq, Repr

namespace Warning

def kind (w : Warning) : WarningKind := w.problem.kind

def message (w : Warning) : Text := w.problem.message

end Warning

end EndpointSurvey
