/-
The documentation of a declaration, read off the raw text that precedes it. Lines of three slashes are its
documentation; without any, the run of two-slash lines right above it stands in.

Main statement: `docComment?_blank` (a blank region documents nothing).
-/
import EndpointSurvey.Source.Basic

namespace EndpointSurvey

namespace DocComment

/-- the comment lines met so far: those of three slashes, and the two-slash lines since the last line of code -/
structure Lines where
  documentation : List Text
  plain : List Text
  deriving DecidableEq, Repr

/-- takes one line; attribute and directive lines leave the run of comment lines whole, other code ends it -/
def step (acc : Lines) (line : Text) : Lines :=
  let t := line.trim
  match Text.after? "///" t with
  | some rest => { acc with documentation := acc.documentation ++ [rest.trim] }
  | none =>
    match Text.after? "//" t with
    | some rest => { acc with plain := acc.plain ++ [rest.trim] }
    | none =>
      if t.isEmpty || t.head? = some '[' || t.head? = some '#' then acc else { acc with plain := [] }

def ofRegion (region : Text) : Lines := region.lines.foldl step ⟨[], []⟩

/-- each tag with at least one character between its angle brackets made a space -/
def dropTags (t : Text) : Text :=
  match t with
  | [] => []
  | c :: cs =>
    if c = '<' ∧ cs.head? ≠ some '>' ∧ cs.contains '>' then ' ' :: dropTags ((cs.dropWhile (· != '>')).drop 1)
    else c :: dropTags cs
  termination_by t.length
  decreasing_by
    · have := (List.dropWhile_suffix (l := cs) (· != '>')).length_le
      simp; omega
    · simp

/-- the text between the first summary tags -/
def summary? (t : Text) : Option Text := do
  let (_, rest) ← Text.splitFirst? "<summary>" t
  let (body, _) ← Text.splitFirst? "</summary>" rest
  some body

/-- nothing for an empty text -/
def nonEmpty? (t : Text) : Option Text := if t.isEmpty then none else some t

end DocComment

open DocComment in
/-- the documentation found in a region: the summary if it is marked, else all of it without tags -/
def docComment? (region : Text) : Option Text :=
  let found := ofRegion region
  if found.documentation.isEmpty then nonEmpty? (Text.join " " found.plain).collapse
  else
    let all := Text.join "\n" found.documentation
    nonEmpty? (((summary? all).getD (dropTags all)).collapse)

theorem docComment?_blank {t : Text} (blanks : ∀ c ∈ t, blank c = true) : docComment? t = none := by
  have steps : ∀ (lines : List Text) (acc : DocComment.Lines), (∀ line ∈ lines, line.trim = []) →
      lines.foldl DocComment.step acc = acc := by
    intro lines
    induction lines with
    | nil => exact fun _ _ => rfl
    | cons line rest ih =>
      intro acc empty
      obtain ⟨first, others⟩ := List.forall_mem_cons.1 empty
      have passed : DocComment.step acc line = acc := by
        rw [DocComment.step, first]
        rfl
      rw [List.foldl_cons, passed, ih acc others]
  have region : DocComment.ofRegion t = ⟨[], []⟩ :=
    steps _ _ fun line h => Text.trim_of_blank fun c hc => blanks c (Text.mem_of_mem_lines h hc)
  simp [docComment?, region, Text.join, Text.collapse, Text.words, DocComment.nonEmpty?]

end EndpointSurvey
