/-
Tags in what is said on a terminal: a name in square brackets starts a style, a slash before it ends the style. A text
with a tag that ends nothing cannot be shown, wherever the tag comes from.

Main statements: `fault?_plain` (a text without opening brackets can be shown) and `fault?_red` (such a text can be
shown in a style, whatever it ends with).
-/
import EndpointSurvey.Entries
import EndpointSurvey.Report.Styled
import EndpointSurvey.Text.Blank
import EndpointSurvey.Text.LowerCase

namespace EndpointSurvey.Markup

/-! ## Tags -/

structure Tag where
  /-- where its bracket stands -/
  position : Nat
  name : Text
  /-- what follows an equals sign -/
  parameters : Option Text
  deriving DecidableEq, Repr

/-- how a tag is written -/
def Tag.text (t : Tag) : Text :=
  let parameters := match t.parameters with
    | some parameters => '=' :: parameters
    | none => []
  '[' :: t.name ++ parameters ++ [']']

def startsTag (c : Char) : Bool := ('a' ≤ c && c ≤ 'z') || c == '#' || c == '/' || c == '@'

/-- the tag of which `t` is what follows the bracket -/
def tagAt? (position : Nat) (t : Text) : Option Tag :=
  let body := t.takeWhile fun c => c != '[' && c != ']'
  if body.head?.any startsTag && (t.drop body.length).head? = some ']' then
    let (name, parameters) := Text.cutFirst '=' body
    some ⟨position, name, parameters⟩
  else none

/-- the tags of a text; `escaped` says whether an odd number of backslashes stands before it -/
def tagsFrom (position : Nat) (escaped : Bool) : Text → List Tag
  | [] => []
  | c :: rest =>
    if c = '\\' then tagsFrom (position + 1) (!escaped) rest
    else
      let further := tagsFrom (position + 1) false rest
      if c = '[' && !escaped then (tagAt? position rest).toList ++ further else further

/-! ## Styles -/

/-- the attributes of a style, in their order -/
def attributeNames : List Text :=
  ["bold", "dim", "italic", "underline", "blink", "blink2", "reverse", "conceal", "strike", "underline2", "frame",
    "encircle", "overline"]

def shortNames : Entries Text :=
  [("b", "bold"), ("d", "dim"), ("i", "italic"), ("u", "underline"), ("r", "reverse"), ("c", "conceal"),
    ("s", "strike"), ("uu", "underline2"), ("o", "overline")]

/-- one way of writing a style: attributes by their full names in their order, anything else in small letters -/
def styleName (t : Text) : Text :=
  let words := (Text.words t.lower).map fun word => (Entries.lookup? word shortNames).getD word
  if words.all attributeNames.contains then Text.join " " (attributeNames.filter words.contains) else t.trim.lower

/-! ## Faults -/

inductive Fault where
  /-- a tag that ends a style that has not started -/
  | unmatched (t : Tag)
  /-- a tag that ends the last style where none has started -/
  | nothingStarted (position : Nat)
  deriving DecidableEq, Repr

def Fault.message : Fault → Text
  | unmatched t =>
    "closing tag '" ++ t.text ++ "' at position " ++ Text.ofNat t.position ++ " doesn't match any open tag"
  | nothingStarted position => "closing tag '[/]' at position " ++ Text.ofNat position ++ " has nothing to close"

/-- the styles that go on after a tag, the last one first -/
def step (styles : List Text) (t : Tag) : Except Fault (List Text) :=
  match t.name with
  | '/' :: name =>
    match Text.trim name, styles with
    | [], [] => .error (.nothingStarted t.position)
    | [], _ :: rest => .ok rest
    | name, styles =>
      if styles.contains (styleName name) then .ok (styles.erase (styleName name)) else .error (.unmatched t)
  | name => .ok (styleName name :: styles)

/-- why a text cannot be shown -/
def fault? (t : Text) : Option Fault :=
  match (tagsFrom 0 false t).foldlM step [] with
  | .ok _ => none
  | .error fault => some fault

theorem tagsFrom_plain (t : Text) (h : '[' ∉ t) (position : Nat) (escaped : Bool) :
    tagsFrom position escaped t = [] := by
  induction t generalizing position escaped with
  | nil => rfl
  | cons c rest ih =>
    have hc : c ≠ '[' := by
      rintro rfl
      exact h (by simp)
    have further := ih fun hm => h (by simp [hm])
    simp [tagsFrom, hc, further]

theorem fault?_plain (t : Text) (h : '[' ∉ t) : fault? t = none := by
  rw [fault?, tagsFrom_plain t h]
  rfl

/-- What has no bracket only moves what follows it along. -/
theorem tagsFrom_append (t u : Text) (h : '[' ∉ t) (position : Nat) (escaped : Bool) :
    ∃ after, tagsFrom position escaped (t ++ u) = tagsFrom (position + t.length) after u := by
  induction t generalizing position escaped with
  | nil => exact ⟨escaped, rfl⟩
  | cons c rest ih =>
    have hc : c ≠ '[' := by
      rintro rfl
      exact h (by simp)
    have further := ih fun hm => h (by simp [hm])
    by_cases hb : c = '\\'
    · obtain ⟨after, same⟩ := further (position + 1) (!escaped)
      exact ⟨after, by simp [tagsFrom, hb, same, Nat.add_comm, Nat.add_left_comm]⟩
    · obtain ⟨after, same⟩ := further (position + 1) false
      exact ⟨after, by simp [tagsFrom, hb, hc, same, Nat.add_comm, Nat.add_left_comm]⟩

theorem fault?_red (t : Text) (h : '[' ∉ t) : fault? (Span.styled "red" t).tagged = none := by
  obtain ⟨after, same⟩ := tagsFrom_append t "[/red]".toList h 5 false
  have opened : tagsFrom 0 false (Span.styled "red" t).tagged =
      ⟨0, "red".toList, none⟩ :: tagsFrom 5 false (t ++ "[/red]".toList) := by
    simp [Span.styled, Span.tagged, tagsFrom, tagAt?, startsTag, Text.cutFirst]
  have closed : ∀ n, tagsFrom n false "[/red]".toList = [⟨n, "/red".toList, none⟩] := by
    intro n
    simp [tagsFrom, tagAt?, startsTag, Text.cutFirst]
  have escaped : ∀ n, tagsFrom n true "[/red]".toList = [] := by
    intro n
    simp [tagsFrom]
  have trimmed : Text.trim ['r', 'e', 'd'] = ['r', 'e', 'd'] := by decide
  rw [fault?, opened, same]
  cases after with
  | true => rw [escaped]; rfl
  | false =>
    rw [closed]
    simp only [List.foldlM]
    simp [step, trimmed, bind, Except.bind, pure, Except.pure]

end EndpointSurvey.Markup
