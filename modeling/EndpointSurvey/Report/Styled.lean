/-
Text with styles for a terminal. A span is written with tags around it, or without its style.
-/
import EndpointSurvey.Text.Basic

namespace EndpointSurvey

structure Span where
  style : Option Text
  text : Text
  deriving DecidableEq, Repr

namespace Span

def unstyled (t : Text) : Span := ⟨none, t⟩

def styled (style : Text) (t : Text) : Span := ⟨some style, t⟩

/-- the text between tags that name its style -/
def tagged : Span → Text
  | ⟨none, t⟩ => t
  | ⟨some style, t⟩ => '[' :: style ++ "]" ++ t ++ "[/" ++ style ++ "]"

end Span

/-- a text of several spans with its tags -/
def taggedText (spans : List Span) : Text := spans.flatMap Span.tagged

/-- a text of several spans without styles -/
def plainText (spans : List Span) : Text := spans.flatMap (·.text)

end EndpointSurvey
