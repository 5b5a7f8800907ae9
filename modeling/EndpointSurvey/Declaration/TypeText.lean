/-
The canonical spelling of a type as source text: no blank beside an angle or square bracket, a comma or a question mark,
and one space after each comma.

Main statement: `tidyType_plain` (a text without blanks, commas and such marks is its own spelling).
-/
import EndpointSurvey.Text.Blank

namespace EndpointSurvey

/-- the marks of type texts beside which no blank is kept -/
def typeMark (c : Char) : Bool := c == '<' || c == '>' || c == ',' || c == '[' || c == ']' || c == '?'

/-- drops the runs of blanks that stand beside a mark; `afterMark` says that a mark has just been passed -/
def closeUp (afterMark : Bool) : Text → Text
  | [] => []
  | c :: cs =>
    if blank c then
      if afterMark || (cs.dropWhile blank).head?.any typeMark then closeUp afterMark cs else c :: closeUp false cs
    else c :: closeUp (typeMark c) cs

/-- the canonical spelling of a type -/
def tidyType (t : Text) : Text := (closeUp false t).flatMap fun c => if c = ',' then ", " else [c]

theorem tidyType_plain (t : Text) (h : ∀ c ∈ t, blank c = false ∧ typeMark c = false) : tidyType t = t := by
  have closed : closeUp false t = t := by
    induction t with
    | nil => rfl
    | cons c cs ih =>
      obtain ⟨hb, hm⟩ := h c (by simp)
      have := ih fun d hd => h d (by simp [hd])
      simp [closeUp, hb, hm, this]
  unfold tidyType
  rw [closed]
  clear closed
  induction t with
  | nil => rfl
  | cons c cs ih =>
    have hc : c ≠ ',' := by rintro rfl; exact absurd (h ',' (by simp)).2 (by decide)
    rw [List.flatMap_cons, ih fun d hd => h d (by simp [hd])]
    simp [hc]

end EndpointSurvey
