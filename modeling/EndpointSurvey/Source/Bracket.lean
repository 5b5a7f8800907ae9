/-
Brackets: the place of the bracket that closes the one a text starts with, and splitting at the separators that stand
outside brackets and quotes.

Main statements: `closing?_lt` (a closing bracket lies inside the text) and `segments_join` (the segments with the
separator between them are the text).
-/
import EndpointSurvey.Source.Basic

namespace EndpointSurvey

/-! ## The closing bracket -/

/-- the offset, counted on from `offset`, at which the depth comes down to zero -/
def closingFrom (opener closer : Char) (depth : Int) (offset : Nat) : Text → Option Nat
  | [] => none
  | c :: cs =>
    if c = opener then closingFrom opener closer (depth + 1) (offset + 1) cs
    else if c = closer then
      if depth = 1 then some offset else closingFrom opener closer (depth - 1) (offset + 1) cs
    else closingFrom opener closer depth (offset + 1) cs

/-- the offset of the bracket that closes the one the text starts with -/
def closing? (opener closer : Char) (t : Text) : Option Nat := closingFrom opener closer 0 0 t

theorem closingFrom_bounds {opener closer : Char} {depth : Int} {offset i : Nat} {t : Text}
    (h : closingFrom opener closer depth offset t = some i) : offset ≤ i ∧ i < offset + t.length := by
  induction t generalizing depth offset with
  | nil => cases h
  | cons c cs ih =>
    unfold closingFrom at h
    split at h
    · have := ih h; simp; omega
    · split at h
      · split at h
        · cases h; simp
        · have := ih h; simp; omega
      · have := ih h; simp; omega

theorem closing?_lt {opener closer : Char} {i : Nat} {t : Text} (h : closing? opener closer t = some i) :
    i < t.length := by
  simpa using (closingFrom_bounds h).2

/-- the place closing the bracket at `start`, counted from the start of the text and searched for before `limit` -/
def matching? (opener closer : Char) (start limit : Nat) (t : Text) : Option Nat :=
  (closing? opener closer ((t.take limit).drop start)).map (start + ·)

/-- every group from a `[` to the next `]`, whatever lies between, replaced by another text -/
def replaceGroups (into t : Text) : Text :=
  match t with
  | [] => []
  | c :: cs =>
    if c = '[' ∧ cs.contains ']' then into ++ replaceGroups into ((cs.dropWhile (· != ']')).drop 1)
    else c :: replaceGroups into cs
  termination_by t.length
  decreasing_by
    · have := (List.dropWhile_suffix (l := cs) (· != ']')).length_le
      simp; omega
    · simp

/-! ## Splitting outside brackets and quotes -/

/-- where a splitter stands with respect to quotes; after a backslash the next character is hidden, and a quote in a
verbatim string closes it unless another follows -/
inductive Quote where
  | outside
  | regular
  | regularHidden
  | character
  | characterHidden
  | verbatim
  | verbatimClosing
  deriving DecidableEq, Repr

/-- the brackets that nest while splitting; the angle brackets of generic types count only on demand -/
def opens (angle : Bool) (c : Char) : Bool := c == '(' || c == '[' || c == '\x7b' || (angle && c == '<')

def closes (angle : Bool) (c : Char) : Bool := c == ')' || c == ']' || c == '\x7d' || (angle && c == '>')

/-- the state of a splitter: its quote, its bracket depth and the character it has just passed -/
structure Splitter where
  quote : Quote
  depth : Nat
  before : Option Char
  deriving DecidableEq, Repr

namespace Splitter

def start : Splitter := ⟨.outside, 0, none⟩

/-- does the splitter stand outside quotes when it meets `c`? -/
def outside (s : Splitter) (c : Char) : Bool :=
  s.quote == .outside || (s.quote == .verbatimClosing && c != '"')

/-- a character met outside quotes; a closing bracket too many is passed over -/
def stepOutside (angle : Bool) (s : Splitter) (c : Char) : Splitter :=
  if c = '"' then ⟨if s.before = some '@' then .verbatim else .regular, s.depth, c⟩
  else if c = '\'' then ⟨.character, s.depth, c⟩
  else if opens angle c then ⟨.outside, s.depth + 1, c⟩
  else if closes angle c then ⟨.outside, s.depth - 1, c⟩
  else ⟨.outside, s.depth, c⟩

/-- passes one character; a double quote ends a quote of any kind -/
def step (angle : Bool) (s : Splitter) (c : Char) : Splitter :=
  match s.quote with
  | .outside => stepOutside angle s c
  | .regular =>
    if c = '\\' then ⟨.regularHidden, s.depth, c⟩
    else if c = '"' then ⟨.outside, s.depth, c⟩
    else ⟨.regular, s.depth, c⟩
  | .regularHidden => ⟨.regular, s.depth, c⟩
  | .character =>
    if c = '\\' then ⟨.characterHidden, s.depth, c⟩
    else if c = '"' ∨ c = '\'' then ⟨.outside, s.depth, c⟩
    else ⟨.character, s.depth, c⟩
  | .characterHidden => ⟨.character, s.depth, c⟩
  | .verbatim => if c = '"' then ⟨.verbatimClosing, s.depth, c⟩ else ⟨.verbatim, s.depth, c⟩
  | .verbatimClosing => if c = '"' then ⟨.verbatim, s.depth, c⟩ else stepOutside angle s c

/-- is `c` a separator that stands at depth zero outside quotes? -/
def cutsAt (separator : Char) (angle : Bool) (s : Splitter) (c : Char) : Bool :=
  s.outside c && c == separator && s.depth == 0 && c != '"' && c != '\'' && !opens angle c && !closes angle c

end Splitter

/-- puts a character in front of the first segment -/
def extendFirst (c : Char) : List Text → List Text
  | [] => [[c]]
  | s :: rest => (c :: s) :: rest

/-- the segments of the text that a splitter has before it -/
def segmentsFrom (separator : Char) (angle : Bool) (s : Splitter) : Text → List Text
  | [] => [[]]
  | c :: cs =>
    let rest := segmentsFrom separator angle (s.step angle c) cs
    if s.cutsAt separator angle c then [] :: rest else extendFirst c rest

/-- the segments between the separators that stand at depth zero outside quotes -/
def segments (separator : Char) (angle : Bool) (t : Text) : List Text := segmentsFrom separator angle .start t

/-- the segments with blanks at their ends dropped; a last segment without content is left out -/
def splitTop (separator : Char) (angle : Bool) (t : Text) : List Text :=
  let parts := (segments separator angle t).map Text.trim
  if parts.getLast? = some [] then parts.dropLast else parts

theorem extendFirst_ne_nil (c : Char) (parts : List Text) : extendFirst c parts ≠ [] := by
  cases parts <;> simp [extendFirst]

theorem segmentsFrom_ne_nil (separator : Char) (angle : Bool) (s : Splitter) (t : Text) :
    segmentsFrom separator angle s t ≠ [] := by
  cases t with
  | nil => simp [segmentsFrom]
  | cons c cs => unfold segmentsFrom; simp only; split <;> simp [extendFirst_ne_nil]

theorem join_extendFirst (sep : Text) (c : Char) {parts : List Text} (h : parts ≠ []) :
    Text.join sep (extendFirst c parts) = c :: Text.join sep parts := by
  cases parts with
  | nil => exact absurd rfl h
  | cons s rest => cases rest <;> simp [extendFirst, Text.join, List.intercalate]

theorem segmentsFrom_join (separator : Char) (angle : Bool) (s : Splitter) (t : Text) :
    Text.join [separator] (segmentsFrom separator angle s t) = t := by
  induction t generalizing s with
  | nil => simp [segmentsFrom, Text.join]
  | cons c cs ih =>
    have ne := segmentsFrom_ne_nil separator angle (s.step angle c) cs
    unfold segmentsFrom
    simp only
    split
    · next hc =>
      have same : c = separator := by
        simp only [Splitter.cutsAt, Bool.and_eq_true, beq_iff_eq] at hc
        exact hc.1.1.1.1.1.2
      obtain ⟨part, parts, hp⟩ := List.exists_cons_of_ne_nil ne
      have hj := ih (s.step angle c)
      rw [hp] at hj ⊢
      subst same
      cases parts <;> simpa [Text.join, List.intercalate] using hj
    · rw [join_extendFirst _ _ ne, ih]

/-- The segments with the separator between them are the text. -/
theorem segments_join (separator : Char) (angle : Bool) (t : Text) :
    Text.join [separator] (segments separator angle t) = t := segmentsFrom_join separator angle .start t

end EndpointSurvey
