/-
Route templates: joining a controller's route with an action's, and reducing every route parameter to its name in
braces.

Main statements: `combine_absolute` (an action's route that starts at the root stands alone) and `squeeze_rooted`.
-/
import EndpointSurvey.Text.Blank
import EndpointSurvey.Text.LowerCase
import EndpointSurvey.Text.WordChar

namespace EndpointSurvey

/-- a template whose parameters are bare names in braces, and those names, each once whatever its case -/
structure RouteTemplate where
  template : Text
  tokens : List Text
  deriving DecidableEq, Repr

/-- is the name among these, whatever its case? -/
def listed (name : Text) (names : List Text) : Bool := names.any (Text.sameFolded name)

/-- adds the names that are not among the found ones yet, whatever their case -/
def addNames (found names : List Text) : List Text :=
  names.foldl (fun found name => if listed name found then found else found ++ [name]) found

/-- the names with those dropped that came before in any case -/
def distinctNames (names : List Text) : List Text := addNames [] names

namespace Route

def slash (c : Char) : Bool := c == '/'

/-- joins the route of a controller with that of an action; one that starts with a slash, or a tilde and a slash, takes
the place of the controller's -/
def combine (base : Text) (method : Option Text) : Text :=
  let base := Text.stripBoth slash base
  let method := method.getD []
  match method with
  | '~' :: '/' :: rest => '/' :: rest.dropWhile slash
  | '/' :: _ => method
  | _ =>
    let method := Text.stripBoth slash method
    match base, method with
    | [], [] => ['/']
    | [], method => '/' :: method
    | base, [] => '/' :: base
    | base, method => '/' :: base ++ '/' :: method

theorem combine_absolute (base rest : Text) : combine base (some ('/' :: rest)) = '/' :: rest := rfl

/-! ## Route parameters -/

/-- a character of the part of a route between braces -/
def inBraces (c : Char) : Bool := c != '\x7b' && c != '\x7d'

/-- what follows up to two stars -/
def afterStars : Text → Text
  | '*' :: '*' :: cs => cs
  | '*' :: cs => cs
  | cs => cs

/-- the parameter that a text starts with: a brace, up to two stars, a name, and anything but braces up to the closing
one; gives the name and what follows -/
def parameter? : Text → Option (Text × Text)
  | '\x7b' :: cs =>
    let inside := afterStars cs
    if inside.head?.any identifierStart then
      match (inside.dropWhile wordChar).dropWhile inBraces with
      | '\x7d' :: rest => some (inside.takeWhile wordChar, rest)
      | _ => none
    else none
  | _ => none

/-- a piece of a route -/
inductive Piece where
  | plain (c : Char)
  | parameter (name : Text)
  deriving DecidableEq, Repr

namespace Piece

def text : Piece → Text
  | plain c => [c]
  | parameter name => '\x7b' :: name ++ ['\x7d']

def name? : Piece → Option Text
  | plain _ => none
  | parameter name => some name

end Piece

theorem afterStars_length_le (t : Text) : (afterStars t).length ≤ t.length := by
  unfold afterStars
  split <;> simp
  omega

theorem parameter?_shorter {t name rest : Text} (h : parameter? t = some (name, rest)) : rest.length < t.length := by
  unfold parameter? at h
  split at h
  · next cs =>
    simp only at h
    split at h
    · split at h
      · next rest' hr =>
        cases h
        have afterName := (List.dropWhile_suffix (l := afterStars cs) wordChar).length_le
        have inside := (List.dropWhile_suffix (l := (afterStars cs).dropWhile wordChar) inBraces).length_le
        have stars := afterStars_length_le cs
        rw [hr] at inside
        simp at inside ⊢
        omega
      · cases h
    · cases h
  · cases h

/-- the pieces of a route -/
def pieces (t : Text) : List Piece :=
  match t with
  | [] => []
  | c :: cs =>
    match _h : parameter? (c :: cs) with
    | some (name, rest) => .parameter name :: pieces rest
    | none => .plain c :: pieces cs
  termination_by t.length
  decreasing_by
    · exact @parameter?_shorter _ name rest ‹_›
    · simp

/-! ## Normal form -/

/-- keeps one slash of each run -/
def squeeze : Text → Text
  | '/' :: '/' :: cs => squeeze ('/' :: cs)
  | c :: cs => c :: squeeze cs
  | [] => []

/-- a template with one slash in front, none doubled, and none at the end of a longer one -/
def tidy (t : Text) : Text :=
  let rooted := squeeze ('/' :: t.dropWhile slash)
  if rooted.length > 1 then Text.dropEnd slash rooted else rooted

/-- the normal template of a route and its tokens -/
def normalize (route : Text) : RouteTemplate :=
  let found := pieces route.trim
  { template := tidy (found.flatMap Piece.text)
    tokens := distinctNames (found.filterMap Piece.name?) }

theorem squeeze_rooted (t : Text) : ∃ rest, squeeze ('/' :: t) = '/' :: rest := by
  induction t with
  | nil => exact ⟨[], rfl⟩
  | cons c cs ih =>
    by_cases hc : c = '/'
    · subst hc
      obtain ⟨rest, hr⟩ := ih
      exact ⟨rest, by rw [squeeze, hr]⟩
    · exact ⟨squeeze (c :: cs), by rw [squeeze]; simpa using hc⟩

end Route

end EndpointSurvey
