/-
Generic arguments put in for type parameters. A parameter is replaced wherever its name stands as a whole word, one
parameter after another, and an argument is put in as a template.

Main statements: `replaceWord_nil` and `substitute_nil` (without arguments nothing changes).
-/
import EndpointSurvey.Entries
import EndpointSurvey.Text.Template

namespace EndpointSurvey

/-- replaces a word in a text that follows a character; an empty word stands at every edge -/
def replaceWordFrom (word : Text) (into : Template) (before : Option Char) (t : Text) : Text :=
  match t with
  | [] => if word.isEmpty && Text.wordEdge before none then into.expand word else []
  | c :: cs =>
    match _h : (if Text.wordEdge before c then Text.after? word (c :: cs) else none) with
    | none => c :: replaceWordFrom word into c cs
    | some rest =>
      if word.isEmpty then into.expand word ++ c :: replaceWordFrom word into c cs
      else if Text.wordEdge word.getLast? rest.head? then
        into.expand word ++ replaceWordFrom word into word.getLast? rest
      else c :: replaceWordFrom word into c cs
  termination_by t.length
  decreasing_by
    · simp
    · simp
    · split at _h
      · have := Text.after?_length ‹_›
        cases word with
        | nil => simp at *
        | cons => simp at this ⊢; omega
      · cases _h
    · simp

/-- replaces a word wherever it stands between two edges -/
def replaceWord (word : Text) (into : Template) (t : Text) : Text := replaceWordFrom word into none t

theorem replaceWord_nil {word : Text} (h : word ≠ []) (into : Template) : replaceWord word into [] = [] := by
  unfold replaceWord replaceWordFrom
  simp [h]

/-- type parameters with their arguments -/
abbrev TypeArguments := Entries Text

namespace TypeArguments

/-- the arguments of a type by its parameters; what has no partner is left out -/
def ofLists (parameters arguments : List Text) : TypeArguments := Entries.ofList (parameters.zip arguments)

/-- puts the arguments in for the parameters of a type's text -/
def substitute (bound : TypeArguments) (t : Text) : Except Template.Error Text :=
  bound.foldlM (fun t (parameter, argument) => do
    let into ← Template.ofText? argument
    pure (replaceWord parameter into t)) t

theorem substitute_nil (t : Text) : substitute [] t = .ok t := rfl

end TypeArguments

end EndpointSurvey
