/-
A stretch of source: the text as written beside the same text with comments and literal bodies blanked. Structure is
read off the blanked side and content cut from the written one, at the same offsets.

Main statements: `take_append_drop` (a source cut in two is made up of its parts) and `locate_line_pos`.
-/
import EndpointSurvey.Source.Lexeme

namespace EndpointSurvey

structure Source where
  raw : Text
  code : Text
  aligned : raw.length = code.length

namespace Source

def ofText (t : Text) : Source := ⟨t, mask true t, (mask_length true t).symm⟩

def length (s : Source) : Nat := s.code.length

def take (n : Nat) (s : Source) : Source := ⟨s.raw.take n, s.code.take n, by simp [s.aligned]⟩

def drop (n : Nat) (s : Source) : Source := ⟨s.raw.drop n, s.code.drop n, by simp [s.aligned]⟩

/-- the stretch from one offset up to before another -/
def slice (start stop : Nat) (s : Source) : Source := (s.drop start).take (stop - start)

theorem take_append_drop (n : Nat) (s : Source) :
    (s.take n).raw ++ (s.drop n).raw = s.raw ∧ (s.take n).code ++ (s.drop n).code = s.code := by
  simp [take, drop]

@[simp] theorem length_drop (n : Nat) (s : Source) : (s.drop n).length = s.length - n := by simp [length, drop]

end Source

/-- a place in a document: line and column, both from 1 -/
structure Location where
  line : Nat
  column : Nat
  deriving DecidableEq, Repr

/-- the line and column of an offset; only line feeds end lines, and an offset past the end lies on the last line -/
def locate (t : Text) (offset : Nat) : Location :=
  let before := t.take offset
  let line := Text.takeEnd (· != '\n') before
  ⟨before.count '\n' + 1, offset - (before.length - line.length) + 1⟩

theorem locate_line_pos (t : Text) (offset : Nat) : 0 < (locate t offset).line ∧ 0 < (locate t offset).column := by
  simp [locate]

end EndpointSurvey
