/-
The tokens of a route template: whatever stands between two braces with no brace in between.

Main statements: `tokenPieces_text` (the pieces of a template make it up again) and `fill_no_token`.
-/
import EndpointSurvey.Route.Basic

namespace EndpointSurvey.Route

/-- the token that a text starts with, and what follows it -/
def token? : Text → Option (Text × Text)
  | '\x7b' :: cs =>
    match cs.takeWhile inBraces, cs.dropWhile inBraces with
    | c :: name, '\x7d' :: rest => some (c :: name, rest)
    | _, _ => none
  | _ => none

theorem token?_append {t name rest : Text} (h : token? t = some (name, rest)) :
    '\x7b' :: name ++ '\x7d' :: rest = t := by
  unfold token? at h
  split at h
  · next cs =>
    split at h
    · next c name' rest' ht hd =>
      cases h
      rw [← List.takeWhile_append_dropWhile (p := inBraces) (l := cs), ht, hd]
      rfl
    · cases h
  · cases h

/-- the characters and tokens of a template -/
def tokenPieces (t : Text) : List Piece :=
  match t with
  | [] => []
  | c :: cs =>
    match _h : token? (c :: cs) with
    | some (name, rest) => .parameter name :: tokenPieces rest
    | none => .plain c :: tokenPieces cs
  termination_by t.length
  decreasing_by
    · have := congrArg List.length (token?_append _h)
      simp at this ⊢
      omega
    · simp

/-- The pieces of a template make it up again. -/
theorem tokenPieces_text (t : Text) : (tokenPieces t).flatMap Piece.text = t := by
  fun_induction tokenPieces t with
  | case1 => rfl
  | case2 c cs name rest h ih =>
    rw [List.flatMap_cons, ih, ← token?_append h]
    simp [Piece.text]
  | case3 c cs h ih => rw [List.flatMap_cons, ih]; rfl

/-- the names of a template's tokens -/
def tokenNames (t : Text) : List Text := (tokenPieces t).filterMap Piece.name?

/-- a template with a text put in for each token -/
def fill (value : Text → Text) (t : Text) : Text :=
  (tokenPieces t).flatMap fun
    | .plain c => [c]
    | .parameter name => value name

theorem fill_no_token (value : Text → Text) (t : Text) (h : tokenNames t = []) : fill value t = t := by
  conv => rhs; rw [← tokenPieces_text t]
  unfold fill
  unfold tokenNames at h
  generalize tokenPieces t = ps at h ⊢
  induction ps with
  | nil => rfl
  | cons p ps ih =>
    cases p with
    | plain c => simpa [Piece.text] using ih (by simpa [Piece.name?] using h)
    | parameter name => simp [Piece.name?] at h

end EndpointSurvey.Route
