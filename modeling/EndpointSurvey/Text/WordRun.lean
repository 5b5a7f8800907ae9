/-
The maximal runs of word characters in a text, each with what stands before it: the way to ask for a whole word.

Main statement: `mem_runs_wordChar` (a run holds word characters only).
-/
import EndpointSurvey.Text.WordChar

namespace EndpointSurvey.Text

/-- a run of word characters and, in reverse, the text before it -/
structure WordRun where
  before : Text
  word : Text
  deriving DecidableEq, Repr

/-- the runs of a text of which `before` has been passed already, last character first -/
def runsAfter (before : Text) (t : Text) : List WordRun :=
  match t with
  | [] => []
  | c :: cs =>
    if wordChar c then
      let run := c :: cs.takeWhile wordChar
      ⟨before, run⟩ :: runsAfter (run.reverse ++ before) (cs.dropWhile wordChar)
    else runsAfter (c :: before) cs
  termination_by t.length
  decreasing_by
    · have := (List.dropWhile_suffix (l := cs) wordChar).length_le
      simp; omega
    · simp

def runs (t : Text) : List WordRun := runsAfter [] t

/-- does the text have this word between two edges? -/
def hasWord (word t : Text) : Bool := (runs t).any (·.word == word)

/-- the text before the first place where the word stands between two edges -/
def beforeWord (word t : Text) : Text :=
  match (runs t).find? (·.word == word) with
  | some run => run.before.reverse
  | none => t

theorem mem_runs_wordChar (t before : Text) : ∀ run ∈ runsAfter before t, ∀ c ∈ run.word, wordChar c = true := by
  have taken : ∀ (cs : Text), ∀ x ∈ cs.takeWhile wordChar, wordChar x = true := by
    intro cs
    induction cs with
    | nil => simp
    | cons d ds ih =>
      intro x hx
      rw [List.takeWhile_cons] at hx
      split at hx
      · next hd =>
        rcases List.mem_cons.1 hx with rfl | hx
        · exact hd
        · exact ih x hx
      · simp at hx
  fun_induction runsAfter before t with
  | case1 => simp
  | case2 before c cs h run ih =>
    intro r hr
    rcases List.mem_cons.1 hr with rfl | hr
    · intro x hx
      rcases List.mem_cons.1 hx with rfl | hx
      · exact h
      · exact taken cs x hx
    · exact ih r hr
  | case3 before c cs h ih => exact ih

end EndpointSurvey.Text
