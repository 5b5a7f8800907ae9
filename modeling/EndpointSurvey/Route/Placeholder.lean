/-
The placeholders of routes, `[controller]` and `[action]` in any case, and the names that are put in for them. A name is
put in as a template, so a backslash in it is an escape; plain names have none.

Main statement: `substitute_no_bracket` (a text without a bracket has no placeholder).
-/
import EndpointSurvey.Text.LowerCase
import EndpointSurvey.Text.Template

namespace EndpointSurvey

/-- does a character match a small letter in any case? The dotted and the dotless i count as an i, the long s as an s
and the kelvin sign as a k. -/
def sameLetter (letter c : Char) : Bool :=
  c.toLower == letter || (letter == 'i' && (c == '\u0130' || c == '\u0131')) || (letter == 's' && c == '\u017f') ||
    (letter == 'k' && c == '\u212a')

/-- a word in square brackets that stands for a name -/
inductive Placeholder where
  | controller
  | action
  deriving DecidableEq, Repr

namespace Placeholder

def word : Placeholder → Text
  | controller => "controller"
  | action => "action"

def text (p : Placeholder) : Text := '[' :: p.word ++ [']']

/-- the text after a placeholder that stands at the start -/
def after? : Text → Text → Option Text
  | [], t => some t
  | _ :: _, [] => none
  | letter :: word, c :: cs => if sameLetter letter c then after? word cs else none

theorem after?_length {word t rest : Text} (h : after? word t = some rest) : t.length = word.length + rest.length := by
  fun_induction after? word t with
  | case1 => cases h; simp
  | case2 => cases h
  | case3 letter word c cs _ ih => simp [ih h]; omega
  | case4 => cases h

/-- puts a template in for every place of the placeholder -/
def substitute (p : Placeholder) (name : Template) (t : Text) : Text :=
  match t with
  | [] => []
  | c :: cs =>
    match _h : after? p.text (c :: cs) with
    | some rest => name.expand ((c :: cs).take p.text.length) ++ substitute p name rest
    | none => c :: substitute p name cs
  termination_by t.length
  decreasing_by
    · have := after?_length ‹_›
      simp [text] at this ⊢
      omega
    · simp

theorem sameLetter_bracket {c : Char} (h : sameLetter '[' c = true) : c = '[' := by
  have low : c.toLower = '[' := by simpa [sameLetter] using h
  unfold Char.toLower at low
  split at low
  · next hu =>
    have value : c.val + 32 = 91 := congrArg Char.val low
    have lower : 65 ≤ c.val.toNat := hu.1
    have upper : c.val.toNat ≤ 90 := hu.2
    have total := congrArg UInt32.toNat value
    rw [UInt32.toNat_add] at total
    simp at lower upper total
    omega
  · exact low

theorem substitute_no_bracket (p : Placeholder) (name : Template) (t : Text) (h : '[' ∉ t) :
    p.substitute name t = t := by
  fun_induction substitute p name t with
  | case1 => rfl
  | case2 c cs rest hr _ =>
    simp only [text, List.cons_append, after?] at hr
    split at hr
    · next hs => exact absurd (sameLetter_bracket hs ▸ List.mem_cons_self) h
    · cases hr
  | case3 c cs _ ih => rw [ih fun hm => h (by simp [hm])]

end Placeholder

/-! ## The names of a controller and an action -/

/-- what a controller's class name may end in -/
def controllerSuffix : Text := "Controller"

/-- the name of a controller without that ending, unless the ending is all of it -/
def controllerShortName (name : Text) : Text :=
  if Text.endsWith controllerSuffix name && controllerSuffix.length < name.length then
    name.take (name.length - controllerSuffix.length)
  else name

/-- the small-letter names that a route's placeholders stand for -/
structure RouteNames where
  controller : Template
  action : Template

namespace RouteNames

/-- the names as templates; the controller's is read first -/
def ofNames? (controller action : Text) : Except Template.Error RouteNames := do
  let controller ← Template.ofText? (controllerShortName controller).lower
  let action ← Template.ofText? action.lower
  pure ⟨controller, action⟩

/-- the names of identifiers, which hold no backslash -/
def plain (controller action : Text) : RouteNames :=
  ⟨Template.plain (controllerShortName controller).lower, Template.plain action.lower⟩

end RouteNames

end EndpointSurvey
