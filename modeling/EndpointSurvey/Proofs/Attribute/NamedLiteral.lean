/-
A named argument of an attribute, told lexeme by lexeme. In a settled text it is found under its key, and its value is
what its literal, settled, is taken for.

Main statements: `namedArgument?_literal` (an argument that names a string) and `ofPart?_mark` (an attribute with an
argument list is read by its name, and its named arguments item by item).
-/
import EndpointSurvey.Proofs.Attribute.GroupStretches

namespace EndpointSurvey

open Lexeme

/-- an item of a group that is a name with an argument list -/
structure Mark (item : List Lexeme) (name : Text) (args : List Lexeme) : Prop where
  parts : ∃ before gaps after, item = before ++ (name.map code ++ (gaps ++ code '(' :: (args ++ code ')' :: after))) ∧
    (∀ l ∈ before, l.gap = true) ∧ (∀ l ∈ gaps, l.gap = true) ∧ ∀ l ∈ after, l.gap = true
  start : ∃ c cs, name = c :: cs ∧ (identifierStart c = true ∨ c = '@') ∧ ∀ d ∈ cs, dottedChar d = true

/-- an item of an argument list that gives a key a regular string -/
structure NamedLiteral (item : List Lexeme) (key body : Text) : Prop where
  parts : ∃ before gaps equals gaps' after, item = before ++ (key.map code ++ (gaps ++ code equals ::
      (gaps' ++ literal ['"'] body ['"'] :: after))) ∧ (equals = '=' ∨ equals = ':') ∧ (∀ l ∈ before, l.gap = true) ∧
    (∀ l ∈ gaps, l.gap = true) ∧ (∀ l ∈ gaps', l.gap = true) ∧ ∀ l ∈ after, l.gap = true
  start : key.head?.any identifierStart = true
  word : ∀ c ∈ key, wordChar c = true

namespace Attribute

/-- the argument that an item is read as, if it is a named one -/
def namedArgument? (item : List Lexeme) : Option (Text × Text) :=
  match Argument.ofText (shown item).collapse with
  | .named key value => some (key, value)
  | .positional _ => none

variable {item args : List Lexeme} {name key body : Text}

/-! ## Arguments -/

theorem text_namedLiteral (plain : ∀ l ∈ item, l.Plain) (named : NamedLiteral item key body) :
    ∃ equals space space', (equals = '=' ∨ equals = ':') ∧ (space = [] ∨ space = [' ']) ∧
      (space' = [] ∨ space' = [' ']) ∧
      (shown item).collapse = key ++ (space ++ equals :: (space' ++ ('"' :: Text.settle false body ++ ['"']))) := by
  obtain ⟨⟨before, gaps, equals, gaps', after, rfl, sign, blanks⟩, start, word⟩ := named
  obtain ⟨before_gaps, gaps_gaps, gaps'_gaps, after_gaps⟩ := blanks
  have filled : key ≠ [] := by
    rintro rfl
    cases start
  have sign_solid : (code equals).gap = false := by rcases sign with rfl | rfl <;> decide
  have parts : before ++ (key.map code ++ (gaps ++ code equals :: (gaps' ++ literal ['"'] body ['"'] :: after))) =
      before ++ (key.map code ++ (gaps ++ code equals :: gaps')) ++ literal ['"'] body ['"'] :: after := by simp
  refine ⟨equals, _, _, sign, text_settle_gaps gaps_gaps, text_settle_gaps gaps'_gaps, ?_⟩
  have solid : ∀ c ∈ key, blank c = false := fun c member => not_blank_of_wordChar (word c member)
  rw [← text_bare plain, parts, bare_append rfl, bare_single rfl after_gaps, settle_codes filled solid,
    (settle_gaps before_gaps).2, settle_append sign_solid]
  simp only [List.nil_append, settled_code, text_append, text_codes, text_cons, text_nil, List.append_nil,
    List.append_assoc, List.cons_append]
  rfl

theorem keyAndValue?_signed {space space' value : Text} {equals : Char} (start : key.head?.any identifierStart = true)
    (word : ∀ c ∈ key, wordChar c = true) (sign : equals = '=' ∨ equals = ':') (one : space = [] ∨ space = [' '])
    (one' : space' = [] ∨ space' = [' ']) {v : Char} (first : value.head? = some v) (solid : blank v = false)
    (single : v ≠ equals) : keyAndValue? (key ++ (space ++ equals :: (space' ++ value))) = some (key, value) := by
  have sign_solid : blank equals = false ∧ wordChar equals = false := by rcases sign with rfl | rfl <;> decide
  have stop : ∀ c ∈ (space ++ equals :: (space' ++ value)).head?, wordChar c = false := by
    rcases one with rfl | rfl
    · rintro _ ⟨⟩
      exact sign_solid.2
    · rintro _ ⟨⟩
      decide
  have begins : (key ++ (space ++ equals :: (space' ++ value))).head?.any identifierStart = true := by
    cases key with
    | nil => cases start
    | cons k ks => exact start
  have name : (key ++ (space ++ equals :: (space' ++ value))).takeWhile wordChar = key :=
    Text.takeWhile_padded word stop
  have behind : ((key ++ (space ++ equals :: (space' ++ value))).dropWhile wordChar).dropWhile blank =
      equals :: (space' ++ value) := by
    rw [Text.dropWhile_padded word stop, Text.dropWhile_padded (Text.blanks_of_gap one) (by rintro _ ⟨⟩; exact sign_solid.1)]
  have value_eq : (space' ++ value).dropWhile blank = value :=
    Text.dropWhile_padded (Text.blanks_of_gap one') (by rw [first]; rintro _ ⟨⟩; exact solid)
  have other : (space' ++ value).head? ≠ some equals := by
    rcases one' with rfl | rfl
    · rw [List.nil_append, first]
      exact fun e => single (Option.some.inj e)
    · intro e
      obtain rfl := Option.some.inj e
      exact absurd sign_solid.1 (by decide)
  have filled : value ≠ [] := by
    rintro rfl
    cases first
  rw [keyAndValue?, if_pos begins, behind]
  simp only [value_eq, name]
  rw [if_pos ⟨sign, other, filled⟩]

/-- An argument that names a string is read as its key and what the string, settled, is taken for. -/
theorem namedArgument?_literal (plain : ∀ l ∈ item, l.Plain) (named : NamedLiteral item key body) :
    namedArgument? item = some (key, unescape (Text.settle false body)) := by
  obtain ⟨equals, space, space', sign, one, one', whole⟩ := text_namedLiteral plain named
  have single : '"' ≠ equals := by rcases sign with rfl | rfl <;> decide
  have first : ('"' :: Text.settle false body ++ ['"']).head? = some '"' := rfl
  have signed := keyAndValue?_signed named.start named.word sign one one' first (by decide) single
  have string : stringLiteral? (shown item).collapse = none := by
    rw [whole]
    cases key with
    | nil => cases named.start
    | cons k ks =>
      have letter : identifierStart k = true := named.start
      have not : ∀ {c}, identifierStart c = false → k ≠ c := ne_of_test letter
      have mark : stringMark k = false := by
        simp [stringMark, not (c := '@') (by decide), not (c := '$') (by decide)]
      rw [stringLiteral?, List.cons_append, List.dropWhile_cons_of_neg (by rw [mark]; exact Bool.false_ne_true)]
      split
      · next e => exact absurd (List.cons.inj e).1 (not (by decide))
      · rfl
  rw [← whole] at signed
  rw [namedArgument?, Argument.ofText, string, signed]
  simp only [literalValue_of_string]

/-! ## Attributes -/

/-- a name as an entry of a group may begin with -/
def EntryName (name : Text) : Prop :=
  ∃ c cs, name = c :: cs ∧ (identifierStart c = true ∨ c = '@') ∧ ∀ d ∈ cs, dottedChar d = true

theorem EntryName.solid (named : EntryName name) : ∀ c ∈ name, blank c = false := by
  obtain ⟨c, cs, rfl, start, dotted⟩ := named
  have visible : ∀ d, dottedChar d = true → blank d = false := by
    intro d h
    rw [dottedChar, Bool.or_eq_true, beq_iff_eq] at h
    rcases h with letter | rfl
    · exact not_blank_of_wordChar letter
    · decide
  refine List.forall_mem_cons.2 ⟨?_, fun d member => visible d (dotted d member)⟩
  rcases start with letter | rfl
  · exact not_blank_of_wordChar (identifierStart_wordChar letter)
  · decide

theorem text_mark (plain : ∀ l ∈ item, l.Plain) (mark : Mark item name args) :
    ∃ space, (space = [] ∨ space = [' ']) ∧
      (shown item).collapse = name ++ (space ++ '(' :: (text (settle false args) ++ [')'])) := by
  have solid := EntryName.solid mark.start
  obtain ⟨⟨before, gaps, after, rfl, before_gaps, gaps_gaps, after_gaps⟩, start⟩ := mark
  have filled : name ≠ [] := by
    obtain ⟨c, cs, rfl, -⟩ := start
    exact List.cons_ne_nil c cs
  have parts : before ++ (name.map code ++ (gaps ++ code '(' :: (args ++ code ')' :: after))) =
      before ++ (name.map code ++ (gaps ++ code '(' :: args)) ++ code ')' :: after := by simp
  refine ⟨_, text_settle_gaps gaps_gaps, ?_⟩
  rw [← text_bare plain, parts, bare_append (by decide), bare_single (by decide) after_gaps, settle_codes filled solid,
    (settle_gaps before_gaps).2, settle_append (by decide)]
  simp only [List.nil_append, settled_code, text_append, text_codes, text_cons, text_nil, List.append_nil,
    List.append_assoc, List.cons_append]
  rfl

variable {space list : Text}

/-- No word of what an attribute applies to stands in front of a name, if no colon follows it. -/
theorem EntryName.afterTarget?_eq (named : EntryName name) {t : Text} (next : ∀ c ∈ t.head?, wordChar c = false)
    (follow : (t.dropWhile blank).head? ≠ some ':') : afterTarget? (name ++ t) = none := by
  have spelled : ∀ target ∈ targets, target.all wordChar = true := by decide
  have solid := named.solid
  have colon : ':' ∉ name := by
    obtain ⟨c, cs, rfl, start, dotted⟩ := named
    rw [List.mem_cons, not_or]
    refine ⟨?_, fun member => absurd (dotted _ member) (by decide)⟩
    rintro rfl
    exact absurd start (by decide)
  rw [afterTarget?, List.findSome?_eq_none_iff]
  intro target listed
  cases found : Text.after? target (name ++ t) with
  | none => rfl
  | some rest =>
    have first : (rest.dropWhile blank).head? ≠ some ':' := by
      rcases List.append_eq_append_iff.1 (after?_append found) with ⟨left, e, rfl⟩ | ⟨left, e, e'⟩
      · cases left with
        | nil => exact follow
        | cons d ds =>
          have inside : d ∈ name := by simp [e]
          rw [List.cons_append, List.dropWhile_cons_of_neg (by rw [solid d inside]; exact Bool.false_ne_true)]
          rintro ⟨⟩
          exact colon inside
      · cases left with
        | nil =>
          rw [List.nil_append] at e'
          rwa [← e']
        | cons d ds =>
          have word := List.all_eq_true.1 (spelled target listed) d (by simp [e])
          rw [next d (by rw [e']; rfl)] at word
          cases word
    rw [Option.bind_eq_bind, Option.bind_some]
    split
    · next tail e => exact absurd (by rw [e]; rfl) first
    · rfl

theorem EntryName.nameAndArguments?_eq (named : EntryName name) (one : space = [] ∨ space = [' ']) (list : Text) :
    nameAndArguments? (name ++ (space ++ '(' :: (list ++ [')']))) = some (name, list) := by
  obtain ⟨c, cs, rfl, first, dotted⟩ := named
  have starts : (identifierStart c || c == '@') = true := by simpa using first
  have next : ∀ c ∈ (space ++ '(' :: (list ++ [')'])).head?, dottedChar c = false := by
    rcases one with rfl | rfl <;> (rintro _ ⟨⟩; decide)
  have open_ : (space ++ '(' :: (list ++ [')'])).dropWhile blank = '(' :: (list ++ [')']) := by
    rcases one with rfl | rfl <;> rfl
  simp only [nameAndArguments?, List.cons_append, starts, if_true, Text.takeWhile_padded dotted next,
    Text.dropWhile_padded dotted next, open_, afterTypeArguments?]
  simp

theorem splitTop_blank {t : Text} (blanks : ∀ c ∈ t, blank c = true) (angle : Bool) : splitTop ',' angle t = [] := by
  have even : ∀ c ∈ t, Splitter.evenMark angle c = true := fun c member =>
    Splitter.evenMark_of_blank (blanks c member) angle
  have comma : ',' ∉ t := fun member => absurd (blanks _ member) (by decide)
  obtain ⟨before, passed⟩ := @Splitter.level_even ',' angle 0 _ even (.inr comma) none
  have whole : segments ',' angle (t ++ []) = [t ++ []] := Splitter.segmentsFrom_passes passed rfl
  have nothing : Text.trim t = [] := by
    have := Text.trim_padded (s := t) (t := []) (u := []) blanks (by simp) (by simp) (by simp)
    rwa [List.append_nil, List.append_nil] at this
  rw [List.append_nil] at whole
  rw [splitTop, whole]
  simp [nothing]

/-- An attribute with an argument list is read by its name, and its named arguments item by item. -/
theorem ofPart?_mark (stretch : Stretch item) (mark : Mark item name args) :
    ∃ a, ofPart? (shown item).collapse = some a ∧ a.name = shortName name ∧
      a.namedArguments = (items false 0 args).filterMap namedArgument? := by
  obtain ⟨space, one, whole⟩ := text_mark stretch.plain mark
  have filled : (name ++ (space ++ '(' :: (text (settle false args) ++ [')']))).isEmpty = false := by
    obtain ⟨c, cs, rfl, -⟩ := mark.start
    rfl
  have list : Stretch args := by
    obtain ⟨before, gaps, after, rfl, -⟩ := mark.parts
    exact stretch.back.back.back.tail.front
  have named : EntryName name := mark.start
  have target : afterTarget? (name ++ (space ++ '(' :: (text (settle false args) ++ [')']))) = none := by
    refine named.afterTarget?_eq ?_ ?_
    · rcases one with rfl | rfl <;> (rintro _ ⟨⟩; decide)
    · rcases one with rfl | rfl <;> (rintro ⟨⟩)
  rw [whole, ofPart?, target, Option.getD_none]
  simp only [filled, Bool.false_eq_true, if_false, ofEntry?, named.nameAndArguments?_eq one, Option.map_some]
  refine ⟨_, rfl, rfl, ?_⟩
  have split := @splitTop_items _ _ list false (fun t => match Argument.ofText t with
    | .named key value => some (key, value)
    | .positional _ => none) rfl
  refine Eq.trans ?_ split
  dsimp only
  split
  · next blanks =>
    rw [splitTop_blank (List.all_eq_true.1 blanks)]
    rfl
  · rw [List.filterMap_map]
    rfl

end Attribute

end EndpointSurvey
