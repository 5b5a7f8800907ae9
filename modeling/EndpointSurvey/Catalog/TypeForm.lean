/-
The outermost layer of a type's text: an array, a generic type with its arguments, or a plain name, each possibly
nullable.

Main statement: `form_plain` (a text without brackets is a plain name).
-/
import EndpointSurvey.Source.Bracket
import EndpointSurvey.Text.LowerCase
import EndpointSurvey.Text.WordChar

namespace EndpointSurvey

/-- the name after the last dot -/
def unqualified (name : Text) : Text := Text.afterLast '.' name.trim

/-- a type's text on one line without its question marks, and whether it had one at its end -/
structure TypeText where
  core : Text
  nullable : Bool
  deriving DecidableEq, Repr

/-- the outermost layer of a type's text -/
inductive TypeForm where
  | nothing
  | array (element : Text)
  | generic (base : Text) (arguments : List Text)
  | plain
  deriving DecidableEq, Repr

namespace TypeText

def ofText (t : Text) : TypeText :=
  let line := t.collapse
  ⟨Text.trim (Text.dropEnd (· == '?') line), line.getLast? = some '?'⟩

/-- a dotted name and what stands between the angle brackets after it, up to the end -/
def generic? (core : Text) : Option (Text × Text) :=
  let base := core.takeWhile dottedChar
  match (core.dropWhile dottedChar).dropWhile blank with
  | '<' :: inside => if !base.isEmpty && inside.getLast? = some '>' then some (base, inside.dropLast) else none
  | _ => none

def form (t : TypeText) : TypeForm :=
  if t.core.isEmpty then .nothing
  else if Text.endsWith ['[', ']'] t.core then .array (Text.trim (t.core.take (t.core.length - 2)))
  else match generic? t.core with
    | some (base, arguments) => .generic base (splitTop ',' true arguments)
    | none => .plain

theorem form_plain {t : TypeText} (some_text : t.core ≠ []) (no_bracket : ∀ c ∈ t.core, c ≠ ']' ∧ c ≠ '<') :
    t.form = .plain := by
  have array : Text.endsWith ['[', ']'] t.core = false := by
    rw [Bool.eq_false_iff]
    intro h
    have : ['[', ']'] <:+ t.core := by simpa [Text.endsWith] using h
    exact (no_bracket ']' (this.subset (by simp))).1 rfl
  have generic : generic? t.core = none := by
    unfold generic?
    simp only
    split
    · next inside hi =>
      have : '<' ∈ t.core := by
        refine (List.dropWhile_suffix dottedChar).subset ((List.dropWhile_suffix blank).subset ?_)
        exact hi ▸ List.mem_cons_self
      exact absurd rfl (no_bracket '<' this).2
    · rfl
  simp [form, some_text, array, generic]

end TypeText

/-- is a type written as one that may be null? -/
def isNullable (t : Text) : Bool :=
  let t := t.trim
  let unqualified := (Text.after? "System." t).getD t
  t.getLast? = some '?' ||
    match Text.after? "Nullable" unqualified with
    | some rest => (rest.dropWhile blank).head? = some '<'
    | none => false

end EndpointSurvey
