/-
Identifiers, dotted names and the contents of strings as they are rendered inside attributes and parameter lists: neither
the lexer nor a splitter finds anything in a name, and what is escaped or doubled is read back.

Main statements: `Bare.masks`, `Bare.onePiece`, `Identifier.trailingIdentifier?_behind`, `unescape_escaped` and
`replace_doubled`.
-/
import EndpointSurvey.Attribute.Literal
import EndpointSurvey.Proofs.Source.Masked
import EndpointSurvey.Proofs.Source.OnePiece
import EndpointSurvey.Proofs.Source.Quotation
import EndpointSurvey.Proofs.Text.Spacing

namespace EndpointSurvey.Rendered

open Lexeme

/-- a letter of the first 128 characters or an underscore, and word characters behind it -/
structure Identifier where
  text : Text
  start : text.head?.any identifierStart = true
  word : text.all wordChar = true

/-- identifiers with dots between them -/
def dottedName (parts : List Identifier) : Text := Text.join "." (parts.map Identifier.text)

/-- a character of names and numbers -/
def bareChar (c : Char) : Bool := wordChar c || c == '.' || c == '+' || c == '-'

/-- a text of such characters -/
structure Bare (t : Text) : Prop where
  filled : t ≠ []
  chars : ∀ c ∈ t, bareChar c = true

theorem ne_of_bareChar {c d : Char} (h : bareChar c = true) (other : bareChar d = false) : c ≠ d := by
  rintro rfl
  rw [h] at other
  cases other

theorem bareChar_of_wordChar {c : Char} (h : wordChar c = true) : bareChar c = true := by simp [bareChar, h]

theorem not_blank_of_bareChar {c : Char} (h : bareChar c = true) : blank c = false := by
  simp only [bareChar, Bool.or_eq_true, beq_iff_eq] at h
  rcases h with ((letter | rfl) | rfl) | rfl
  · exact not_blank_of_wordChar letter
  all_goals decide

theorem codeMark_of_bareChar {c : Char} (h : bareChar c = true) : codeMark c = true := by
  simp [codeMark, quoteMark, ne_of_bareChar h (d := '/') (by decide), ne_of_bareChar h (d := '#') (by decide),
    ne_of_bareChar h (d := '"') (by decide), ne_of_bareChar h (d := '\'') (by decide),
    ne_of_bareChar h (d := '@') (by decide), ne_of_bareChar h (d := '$') (by decide)]

theorem evenMark_of_bareChar {c : Char} (h : bareChar c = true) (angle : Bool) : Splitter.evenMark angle c = true := by
  simp [Splitter.evenMark, opens, closes, ne_of_bareChar h (d := '"') (by decide),
    ne_of_bareChar h (d := '\'') (by decide), ne_of_bareChar h (d := '(') (by decide),
    ne_of_bareChar h (d := ')') (by decide), ne_of_bareChar h (d := '[') (by decide),
    ne_of_bareChar h (d := ']') (by decide), ne_of_bareChar h (d := '\x7b') (by decide),
    ne_of_bareChar h (d := '\x7d') (by decide), ne_of_bareChar h (d := '<') (by decide),
    ne_of_bareChar h (d := '>') (by decide)]

namespace Bare

variable {t : Text}

theorem ne_of_mem (h : Bare t) {c d : Char} (hc : c ∈ t) (other : bareChar d = false) : c ≠ d :=
  ne_of_bareChar (h.chars c hc) other

theorem trim_eq (h : Bare t) : t.trim = t := Text.trim_of_solid fun c hc => not_blank_of_bareChar (h.chars c hc)

theorem masks (h : Bare t) (literals : Bool) : Masks literals t t :=
  masks_plain (fun c hc => codeMark_of_bareChar (h.chars c hc)) literals

/-- A splitter passes over names and numbers in one piece. -/
theorem onePiece (h : Bare t) (angle : Bool) (depth : Nat) : OnePiece angle depth t :=
  onePiece_even (fun c hc => evenMark_of_bareChar (h.chars c hc) angle) (.inr fun hc => h.ne_of_mem hc (by decide) rfl)

theorem append {u : Text} (ht : Bare t) (hu : ∀ c ∈ u, bareChar c = true) : Bare (t ++ u) :=
  ⟨by simp [ht.filled], List.forall_mem_append.2 ⟨ht.chars, hu⟩⟩

end Bare

namespace Identifier

variable (n : Identifier)

theorem wordChars : ∀ c ∈ n.text, wordChar c = true := List.all_eq_true.1 n.word

theorem exists_start : ∃ c cs, n.text = c :: cs ∧ identifierStart c = true := by
  have start := n.start
  cases e : n.text with
  | nil => rw [e] at start; cases start
  | cons c cs => exact ⟨c, cs, rfl, by rw [e] at start; exact start⟩

theorem bare : Bare n.text := by
  obtain ⟨c, cs, e, -⟩ := n.exists_start
  exact ⟨by rw [e]; exact List.cons_ne_nil c cs, fun d hd => bareChar_of_wordChar (n.wordChars d hd)⟩

theorem takeEnd_behind (before : Text) : Text.takeEnd wordChar (before ++ ' ' :: n.text) = n.text := by
  have word : ∀ c ∈ n.text.reverse, wordChar c = true := fun c hc => n.wordChars c (List.mem_reverse.1 hc)
  rw [Text.takeEnd, List.reverse_append, List.reverse_cons, List.append_assoc, List.takeWhile_append_of_pos word,
    List.singleton_append, List.takeWhile_cons_of_neg (by decide), List.append_nil, List.reverse_reverse]

/-- The identifier at the end of a declaration is cut off. -/
theorem trailingIdentifier?_behind (before : Text) :
    Text.trailingIdentifier? (before ++ ' ' :: n.text) = some (before ++ [' '], n.text) := by
  obtain ⟨c, cs, e, start⟩ := n.exists_start
  have name : n.text.dropWhile (!identifierStart ·) = n.text := by
    rw [e, List.dropWhile_cons_of_neg (by simp [start])]
  rw [Text.trailingIdentifier?, takeEnd_behind, name]
  simp only [List.isEmpty_eq_false_iff.2 n.bare.filled, Bool.false_eq_true, if_false, Option.some.injEq, Prod.mk.injEq,
    and_true]
  rw [show before ++ ' ' :: n.text = (before ++ [' ']) ++ n.text by simp, List.length_append, Nat.add_sub_cancel,
    List.take_left]

end Identifier

theorem dottedName_cons (first second : Identifier) (rest : List Identifier) :
    dottedName (first :: second :: rest) = first.text ++ '.' :: dottedName (second :: rest) := by
  rw [dottedName, List.map_cons, List.map_cons, Text.join_cons]
  rfl

/-- A dotted name starts as its first part does. -/
theorem exists_dottedName (first : Identifier) (rest : List Identifier) :
    ∃ tail, dottedName (first :: rest) = first.text ++ tail ∧ (∀ c ∈ tail.head?, c = '.') ∧
      ∀ c ∈ tail, dottedChar c = true := by
  induction rest generalizing first with
  | nil => exact ⟨[], by simp [dottedName, Text.join], by simp, by simp⟩
  | cons second rest ih =>
    obtain ⟨tail, e, -, dotted⟩ := ih second
    refine ⟨'.' :: dottedName (second :: rest), dottedName_cons first second rest, by simp, ?_⟩
    rw [e]
    refine List.forall_mem_cons.2 ⟨by decide, List.forall_mem_append.2 ⟨fun c hc => ?_, dotted⟩⟩
    rw [dottedChar, second.wordChars c hc, Bool.true_or]

theorem bareChar_of_dottedChar {c : Char} (h : dottedChar c = true) : bareChar c = true := by
  simp only [dottedChar, Bool.or_eq_true, beq_iff_eq] at h
  rcases h with letter | rfl
  · exact bareChar_of_wordChar letter
  · decide

theorem dottedName_bare (first : Identifier) (rest : List Identifier) : Bare (dottedName (first :: rest)) := by
  obtain ⟨tail, e, -, dotted⟩ := exists_dottedName first rest
  rw [e]
  exact first.bare.append fun c hc => bareChar_of_dottedChar (dotted c hc)

/-! ## The contents of strings -/

/-- a text as it stands in a regular string: quotes, backslashes, line feeds and tabs escaped -/
def escaped (content : Text) : Text :=
  content.flatMap fun c =>
    if c = '"' then ['\\', '"']
    else if c = '\\' then ['\\', '\\']
    else if c = '\n' then ['\\', 'n']
    else if c = '\t' then ['\\', 't']
    else [c]

theorem quotedBody_escaped (content : Text) : QuotedBody '"' (escaped content) := by
  induction content with
  | nil => exact .nil
  | cons c cs ih =>
    rw [escaped, List.flatMap_cons]
    refine QuotedBody.append ?_ ih
    split
    · exact .escape (by decide) .nil
    · next quote =>
      split
      · exact .escape (by decide) .nil
      · next slash =>
        split
        · exact .escape (by decide) .nil
        · next feed =>
          split
          · exact .escape (by decide) .nil
          · exact .plain ⟨quote, slash, feed⟩ .nil

/-- What is escaped is read back. -/
theorem unescape_escaped (content : Text) : unescape (escaped content) = content := by
  induction content with
  | nil => rfl
  | cons c cs ih =>
    have escape : ∀ mark : Char, mark ≠ '\n' →
        unescape (['\\', mark] ++ escaped cs) = escapedChar mark :: cs := by
      intro mark feed
      rw [List.cons_append, List.singleton_append, unescape, if_neg feed, ih]
    rw [escaped, List.flatMap_cons, ← escaped]
    split
    · next e => rw [escape _ (by decide), e]; rfl
    · split
      · next e => rw [escape _ (by decide), e]; rfl
      · next slash =>
        split
        · next e => rw [escape _ (by decide), e]; rfl
        · split
          · next e => rw [escape _ (by decide), e]; rfl
          · rw [List.singleton_append, unescape, ih]
            exact fun d ds e _ => slash e

theorem replace_doubled (content : Text) : Text.replace ['"', '"'] ['"'] (doubled content) = content := by
  induction content with
  | nil => rw [doubled, List.flatMap_nil, Text.replace]
  | cons c cs ih =>
    rw [doubled_cons]
    by_cases quote : c = '"'
    · have found : Text.after? ['"', '"'] ('"' :: '"' :: doubled cs) = some (doubled cs) :=
        after?_self ['"', '"'] (doubled cs)
      rw [if_pos quote, List.cons_append, List.singleton_append, Text.replace]
      split
      · next absent =>
        rw [found] at absent
        cases absent
      · next rest e =>
        rw [found] at e
        cases e
        rw [ih, quote]
        rfl
    · have absent : Text.after? ['"', '"'] (c :: doubled cs) = none :=
        after?_eq_none fun two => quote (List.cons_prefix_cons.1 two).1.symm
      rw [if_neg quote, List.singleton_append, Text.replace]
      split
      · rw [ih]
      · next rest e =>
        rw [absent] at e
        cases e

end EndpointSurvey.Rendered
