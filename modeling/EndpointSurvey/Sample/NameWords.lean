/-
The words of a name: runs of letters cut where a capital starts a new word, and runs of digits; anything else separates.

Main statement: `rawWords_ne_nil` (no word is empty).
-/
import EndpointSurvey.Text.LowerCase
import EndpointSurvey.Text.WordChar

namespace EndpointSurvey

/-- The words of a name as written. A run of capitals before a small letter leaves its last one to the next word. -/
def rawWords (t : Text) : List Text :=
  match t with
  | [] => []
  | c :: cs =>
    if c.isUpper then
      let capitals := cs.takeWhile Char.isUpper
      let rest := cs.dropWhile Char.isUpper
      if rest.head?.any Char.isLower then
        match capitals with
        | [] => (c :: rest.takeWhile Char.isLower) :: rawWords (rest.dropWhile Char.isLower)
        | d :: ds =>
          (c :: (d :: ds).dropLast) ::
            ((d :: ds).getLast (by simp) :: rest.takeWhile Char.isLower) :: rawWords (rest.dropWhile Char.isLower)
      else (c :: capitals) :: rawWords rest
    else if c.isLower then (c :: cs.takeWhile Char.isLower) :: rawWords (cs.dropWhile Char.isLower)
    else if decimalDigit c then (c :: cs.takeWhile decimalDigit) :: rawWords (cs.dropWhile decimalDigit)
    else rawWords cs
  termination_by t.length
  decreasing_by
    all_goals
      have capitals := (List.dropWhile_suffix (l := cs) Char.isUpper).length_le
      have small := (List.dropWhile_suffix (l := cs.dropWhile Char.isUpper) Char.isLower).length_le
      have smallFirst := (List.dropWhile_suffix (l := cs) Char.isLower).length_le
      have digits := (List.dropWhile_suffix (l := cs) decimalDigit).length_le
      simp
      try omega

/-- the words of a name in small letters -/
def nameWords (name : Text) : List Text := (rawWords name).map Text.lower

theorem rawWords_ne_nil (t : Text) : ∀ w ∈ rawWords t, w ≠ [] := by
  fun_induction rawWords t <;> simp_all

end EndpointSurvey
