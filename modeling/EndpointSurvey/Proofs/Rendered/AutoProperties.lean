/-
Properties with accessors as they are rendered: attributes, modifiers, a type in any spelling, a name, accessors without
bodies, each with an access modifier or none, and maybe an initializer. The accessors are a member with a block; the
initializer behind them is a member of its own, that tells nothing.

Main statements: `settable_accessorBlock`, `AutoProperty.collapse_headForm`, `AutoProperty.told_of_reads` and
`AutoProperty.tells`.
-/
import EndpointSurvey.Proofs.Rendered.MemberHeadings
import EndpointSurvey.Proofs.Rendered.PropertyEntries
import EndpointSurvey.Proofs.Text.Settling

namespace EndpointSurvey

namespace Rendered

open Lexeme

/-! ## Accessors -/

/-- an access modifier of an accessor, and the blanks behind it -/
structure AccessMark where
  word : Text
  listed : word ∈ accessWords
  gap : Blanks
  apart : gap.text ≠ []

inductive AccessorKind where
  | get
  | set
  | init
  deriving DecidableEq, Repr

def AccessorKind.word : AccessorKind → Text
  | .get => "get"
  | .set => "set"
  | .init => "init"

/-- an accessor without a body -/
structure Accessor where
  above : Blanks
  mark : Option AccessMark
  kind : AccessorKind
  below : Blanks

namespace Accessor

def markText (a : Accessor) : Text :=
  match a.mark with
  | none => []
  | some k => k.word ++ k.gap.text

def front (a : Accessor) : Text := a.above.text ++ (a.markText ++ (a.kind.word ++ a.below.text))

def text (a : Accessor) : Text := a.front ++ [';']

/-- does the accessor let anyone set the property? -/
def open? (a : Accessor) : Bool := a.mark.isNone && a.kind != .get

end Accessor

theorem AccessorKind.letters (k : AccessorKind) : k.word ≠ [] ∧ ∀ c ∈ k.word, wordChar c = true := by
  cases k <;> exact ⟨by decide, Text.forall_of_all (by decide)⟩

theorem AccessorKind.word_sets (k : AccessorKind) :
    (decide (k.word = ("set" : Text)) || decide (k.word = ("init" : Text))) = (k != .get) := by
  cases k <;> decide

theorem AccessMark.letters (k : AccessMark) : k.word ≠ [] ∧ ∀ c ∈ k.word, wordChar c = true := by
  have checked : accessWords.all fun word => !word.isEmpty && word.all wordChar := by decide
  have := List.all_eq_true.1 checked k.word k.listed
  simpa using this

/-- does the run stand for an accessor that anyone may use to set? -/
def opening (run : Text.WordRun) : Bool :=
  (run.word = ("set" : Text) || run.word = ("init" : Text)) && !marked run.before

theorem marked_apart {before : Text} (edge : before.head? = some '\x7b' ∨ before.head? = some ';') {g : Text}
    (blanks : ∀ c ∈ g, EndpointSurvey.blank c = true) : marked (g ++ before) = false := by
  have other : ∃ c cs, before = c :: cs ∧ EndpointSurvey.blank c = false ∧ c ≠ 'e' ∧ c ≠ 'd' := by
    rcases edge with head | head
    all_goals
      obtain ⟨cs, rfl⟩ := List.head?_eq_some_iff.1 head
      exact ⟨_, cs, rfl, by decide, by decide, by decide⟩
  obtain ⟨c, cs, rfl, solid, first, second⟩ := other
  have behind : (g ++ c :: cs).dropWhile EndpointSurvey.blank = c :: cs :=
    Text.dropWhile_padded blanks (by
      rintro _ ⟨⟩
      exact solid)
  have starts : accessWords.any (fun word => Text.startsWith word.reverse (c :: cs)) = false := by
    simp [accessWords, Text.startsWith, List.isPrefixOf, first.symm, second.symm]
  rw [marked, behind, starts, Bool.and_false]

theorem marked_mark (k : AccessMark) (before : Text) : marked (k.gap.text.reverse ++ (k.word.reverse ++ before)) = true := by
  obtain ⟨filled, letters⟩ := k.letters
  have blanks : ∀ c ∈ k.gap.text.reverse, EndpointSurvey.blank c = true := fun c hc => k.gap.all c (List.mem_reverse.1 hc)
  have solid : ∀ c ∈ (k.word.reverse ++ before).head?, EndpointSurvey.blank c = false := by
    intro c hc
    rw [List.head?_append_of_ne_nil _ (by simpa using filled)] at hc
    exact not_blank_of_wordChar (letters c (List.mem_reverse.1 (List.mem_of_mem_head? hc)))
  have first : (k.gap.text.reverse ++ (k.word.reverse ++ before)).head?.any EndpointSurvey.blank = true := by
    obtain ⟨d, ds, e⟩ := List.exists_cons_of_ne_nil (List.reverse_ne_nil_iff.2 k.apart)
    rw [e]
    exact blanks d (e ▸ List.mem_cons_self)
  have starts : accessWords.any (fun word => Text.startsWith word.reverse (k.word.reverse ++ before)) = true :=
    List.any_eq_true.2 ⟨k.word, k.listed, List.isPrefixOf_iff_prefix.2 (List.prefix_append _ _)⟩
  rw [marked, first, Text.dropWhile_padded blanks solid, starts]
  rfl

theorem Accessor.any_opening (a : Accessor) {before : Text}
    (edge : before.head? = some '\x7b' ∨ before.head? = some ';') :
    (Text.runsAfter before a.front).any opening = a.open? := by
  obtain ⟨filled, letters⟩ := a.kind.letters
  have marks (g : Blanks) : ∀ c ∈ g.text, wordChar c = false := fun c hc => not_wordChar_of_blank (g.all c hc)
  have blanks : ∀ c ∈ a.above.text.reverse, EndpointSurvey.blank c = true := fun c hc =>
    a.above.all c (List.mem_reverse.1 hc)
  rw [front, Text.runsAfter_marks_append (marks a.above), markText]
  cases mark : a.mark with
  | none =>
    rw [List.nil_append, Text.runsAfter_word filled letters (marks a.below), List.any_cons, List.any_nil, Bool.or_false,
      opening, a.kind.word_sets, marked_apart edge blanks, open?, mark]
    exact Bool.and_comm ..
  | some k =>
    obtain ⟨filled', letters'⟩ := k.letters
    obtain ⟨d, ds, e⟩ := List.exists_cons_of_ne_nil k.apart
    have space : ∀ c ∈ d :: ds, wordChar c = false := e ▸ marks k.gap
    have other : opening ⟨a.above.text.reverse ++ before, k.word⟩ = false := by
      have listed := k.listed
      simp only [accessWords, List.mem_cons, List.not_mem_nil, or_false] at listed
      rcases listed with e | e <;> simp [opening, e]
    have behind : d :: ds ++ (a.kind.word ++ a.below.text) = d :: (ds ++ (a.kind.word ++ a.below.text)) := rfl
    have whole : ds.reverse ++ d :: (k.word.reverse ++ (a.above.text.reverse ++ before)) =
        k.gap.text.reverse ++ (k.word.reverse ++ (a.above.text.reverse ++ before)) := by
      rw [e]
      simp
    dsimp only
    rw [e, List.append_assoc, behind, Text.runsAfter_append_mark (space d List.mem_cons_self), ← List.append_nil k.word,
      Text.runsAfter_word filled' letters' (by simp), List.append_nil,
      Text.runsAfter_marks_append fun c hc => space c (List.mem_cons_of_mem d hc),
      Text.runsAfter_word filled letters (marks a.below), whole, List.any_append, List.any_cons, other]
    simp [opening, marked_mark, open?, mark]

/-- the block of a property -/
def accessorBlock (accessors : List Accessor) (bottom : Blanks) : Text :=
  '\x7b' :: ((accessors.flatMap Accessor.text ++ bottom.text) ++ ['\x7d'])

section
variable (accessors : List Accessor) (bottom : Blanks)

theorem forall_accessors {p : Char → Prop} (word : ∀ c, wordChar c = true → p c)
    (blank : ∀ c, EndpointSurvey.blank c = true → p c) (semicolon : p ';') :
    ∀ c ∈ accessors.flatMap Accessor.text ++ bottom.text, p c := by
  have blanks (g : Blanks) : ∀ c ∈ g.text, p c := fun c hc => blank c (g.all c hc)
  refine List.forall_mem_append.2 ⟨?_, blanks bottom⟩
  intro c hc
  obtain ⟨a, -, hc⟩ := List.mem_flatMap.1 hc
  have mark : ∀ c ∈ a.markText, p c := by
    rw [Accessor.markText]
    cases a.mark with
    | none => simp
    | some k => exact List.forall_mem_append.2 ⟨fun c hc => word c (k.letters.2 c hc), blanks k.gap⟩
  have all : ∀ c ∈ a.text, p c := List.forall_mem_append.2 ⟨List.forall_mem_append.2 ⟨blanks a.above,
    List.forall_mem_append.2 ⟨mark, List.forall_mem_append.2 ⟨fun c hc => word c (a.kind.letters.2 c hc), blanks a.below⟩⟩⟩,
    List.forall_mem_singleton.2 semicolon⟩
  exact all c hc

theorem codeMarks_accessors : ∀ c ∈ accessors.flatMap Accessor.text ++ bottom.text, codeMark c = true :=
  forall_accessors accessors bottom (fun c word => codeMark_of_bareChar (bareChar_of_wordChar word))
    (fun c space => codeMark_of_blank space) (by decide)

/-- **A property can be set if an accessor that sets has no access modifier.** -/
theorem settable_accessorBlock : settable (accessorBlock accessors bottom) = accessors.any Accessor.open? := by
  have plain : ∀ c ∈ accessorBlock accessors bottom, codeMark c = true :=
    List.forall_mem_cons.2 ⟨by decide, List.forall_mem_append.2 ⟨codeMarks_accessors accessors bottom, by decide⟩⟩
  have below : ∀ c ∈ bottom.text ++ ['\x7d'], wordChar c = false :=
    List.forall_mem_append.2 ⟨fun c hc => not_wordChar_of_blank (bottom.all c hc), by decide⟩
  have further (before : Text) (edge : before.head? = some '\x7b' ∨ before.head? = some ';') :
      (Text.runsAfter before (accessors.flatMap Accessor.text ++ (bottom.text ++ ['\x7d']))).any opening =
        accessors.any Accessor.open? := by
    induction accessors generalizing before with
    | nil =>
      rw [List.flatMap_nil, List.nil_append, Text.runsAfter_marks below]
      rfl
    | cons a accessors ih =>
      have shape : (a :: accessors).flatMap Accessor.text ++ (bottom.text ++ ['\x7d']) =
          a.front ++ ';' :: (accessors.flatMap Accessor.text ++ (bottom.text ++ ['\x7d'])) := by simp [Accessor.text]
      rw [shape, Text.runsAfter_append_mark (by decide), List.any_append, a.any_opening edge, ih, List.any_cons]
      · exact List.forall_mem_cons.2 ⟨by decide, List.forall_mem_append.2 ⟨codeMarks_accessors accessors bottom, by decide⟩⟩
      · exact .inr rfl
  have start : Text.runs (accessorBlock accessors bottom) =
      Text.runsAfter ['\x7b'] (accessors.flatMap Accessor.text ++ (bottom.text ++ ['\x7d'])) := by
    rw [Text.runs, accessorBlock, Text.runsAfter, if_neg (by decide), List.append_assoc]
  rw [settable, (masks_plain plain true).mask_eq, start]
  exact further ['\x7b'] (.inl rfl)

end

/-! ## Types -/

namespace TypeForm

variable {t c : Text}

theorem pairs_square (h : TypeForm t c) : Paired '[' ']' t := by
  have blanks (wide : Bool) : Paired '[' ']' (gap wide) := .of_free (forall_mem_gap (by decide) wide)
  induction h with
  | name first rest free =>
    have bare := dottedName_bare first rest
    exact .of_free fun d hd => ⟨bare.ne_of_mem hd (by decide), bare.ne_of_mem hd (by decide)⟩
  | @generic _ _ wide arguments _ _ _ each ih =>
    have list : Paired '[' ']' (argumentList arguments) := .join (Text.forall_of_all (by decide))
      (List.forall_mem_map.2 fun a ha => (blanks a.left).append ((each a ha).append (blanks a.right)))
    exact ih.append ((blanks wide).append ((list.append (.of_free (by decide))).cons (by decide) (by decide)))
  | array wide inner _ ih => exact ih.append ((blanks wide).append ((blanks inner).group (by decide)))
  | nullable wide _ ih => exact ih.append ((blanks wide).append (.of_free (by decide)))

theorem canonical_ne_nil (h : TypeForm t c) : c ≠ [] := by
  cases h with
  | name first rest free => exact (dottedName_bare first rest).filled
  | _ => simp

/-- The first word of a type is none of those that its names are not among. -/
theorem exists_word_without (h : TypeForm t c) {kept : List Text} (letters : ∀ word ∈ kept, word.all wordChar = true)
    (free : Text.Without kept t) : ∃ word rest, Text.words t = word :: rest ∧ word ∉ kept := by
  obtain ⟨first, rest, tail, rfl, -, edge⟩ := h.exists_head
  have bare := dottedName_bare first rest
  have mark : ∀ d ∈ tail.head?, wordChar d = false := by
    intro d hd
    rcases edge d hd with rfl | mark
    · decide
    · simp only [typeMark, Bool.or_eq_true, beq_iff_eq] at mark
      rcases mark with ((((rfl | rfl) | rfl) | rfl) | rfl) | rfl <;> decide
  refine bare.exists_word edge (fun word listed => ?_) fun listed => ?_
  · rw [List.any_eq_false]
    intro d hd marked
    have letter := List.all_eq_true.1 (letters word listed) d hd
    simp only [typeMark, Bool.or_eq_true, beq_iff_eq] at marked
    rcases marked with ((((rfl | rfl) | rfl) | rfl) | rfl) | rfl <;> exact absurd letter (by decide)
  · -- a name that is one of the words is a run by itself
    have run : Text.runWords (dottedName (first :: rest)) = [dottedName (first :: rest)] :=
      Text.runWords_single bare.filled (List.all_eq_true.1 (letters _ listed))
    refine free (dottedName (first :: rest)) ?_ listed
    rw [Text.runWords_append_of_head mark, run]
    exact List.mem_cons_self

end TypeForm

/-! ## Properties -/

/-- the modifiers that a property may have -/
def allModifiers : List Text := propertyModifiers ++ hidingModifiers

/-- a modifier, and the blanks behind it -/
structure Modifier where
  word : Text
  listed : word ∈ allModifiers
  gap : Blanks
  apart : gap.text ≠ []

def Modifier.text (m : Modifier) : Text := m.word ++ m.gap.text

/-- a text in front of a mark, and its code: nothing in it reaches past the mark -/
structure Closed (stop : Char) where
  text : Text
  code : Text
  masks : Masks true (text ++ [stop]) (code ++ [stop])

/-- an equals sign and a value, such as a literal, in whose code no brace and no semicolon stands -/
structure Initializer where
  gap : Blanks
  value : Closed ';'
  plain : Plain value.code

/-- words that no type is named by -/
def keptTypeWords : List Text := allModifiers ++ [("this" : Text)]

namespace Initializer

variable (i : Initializer)

def form : Text := i.gap.text ++ '=' :: i.value.text

def code : Text := i.gap.text ++ '=' :: i.value.code

end Initializer

/-- a property with accessors -/
structure AutoProperty where
  groups : AttributeGroups
  above : Blanks
  modifiers : List Modifier
  written : Text
  canonical : Text
  type : TypeForm written canonical
  unreserved : Text.Without keptTypeWords written
  gap : Blanks
  apart : gap.text ≠ []
  name : Identifier
  named : name.text ≠ "this"
  below : Blanks
  accessors : List Accessor
  bottom : Blanks
  initializer : Option Initializer

/-- a text that is all code -/
def Closed.ofCode {stop : Char} (t : Text) (code : ∀ c ∈ t ++ [stop], codeMark c = true) : Closed stop :=
  ⟨t, t, masks_plain code true⟩

theorem Closed.length_eq {stop : Char} (s : Closed stop) : s.text.length = s.code.length := by
  have whole := s.masks.length_eq
  simpa using whole.symm

theorem letters_keptTypeWords : ∀ word ∈ keptTypeWords, word ≠ [] ∧ ∀ c ∈ word, wordChar c = true := by
  have checked : keptTypeWords.all fun word => !word.isEmpty && word.all wordChar := by decide
  simpa using checked

theorem Modifier.letters (m : Modifier) : m.word ≠ [] ∧ ∀ c ∈ m.word, wordChar c = true :=
  letters_keptTypeWords _ (List.mem_append_left _ m.listed)

namespace Initializer

variable (i : Initializer)

theorem masks : Masks true (i.form ++ [';']) (i.code ++ [';']) := by
  have front : Masks true (i.gap.text ++ ['=']) (i.gap.text ++ ['=']) := (i.gap.masks true).append
    (masks_plain (by decide) true)
  have whole := front.append i.value.masks
  simpa [form, code] using whole

theorem plain_code : Plain i.code :=
  List.forall_mem_append.2 ⟨fun c hc => ⟨i.gap.ne (by decide) c hc, i.gap.ne (by decide) c hc, i.gap.ne (by decide) c hc⟩,
    List.forall_mem_cons.2 ⟨by decide, i.plain⟩⟩

end Initializer

namespace AutoProperty

variable (p : AutoProperty)

/-- the modifiers, the type and the name as they are written -/
def signatureForm : Text := p.modifiers.flatMap Modifier.text ++ (p.written ++ (p.gap.text ++ p.name.text))

/-- what stands between the groups and the block -/
def headForm : Text := p.signatureForm ++ p.below.text

def words : List Text := p.modifiers.map Modifier.word

/-- the modifiers, the type and the name, one space apart -/
def signature : Text := p.words.flatMap (· ++ [' ']) ++ (p.written ++ ' ' :: p.name.text)

/-- the property up to its initializer -/
def frontForm : Text := p.groups.form ++ (p.above.text ++ p.headForm) ++ accessorBlock p.accessors p.bottom

def frontCode : Text := p.groups.code ++ (p.above.text ++ p.headForm) ++ accessorBlock p.accessors p.bottom

/-- Is the property one that a client can set? -/
def kept : Bool :=
  p.accessors.any Accessor.open? && !p.words.contains "static" &&
    (p.words.contains "public" || !p.words.any (hidingModifiers.contains ·))

/-- what is told of the property -/
def property : Property :=
  { name := p.name.text
    typeText := p.canonical
    comment := none
    jsonName := jsonNameOf p.groups.marks
    required := p.words.contains "required" || Attribute.has "Required" p.groups.marks }

/-- what is told of the property, if it is kept -/
def told : Option Property := if p.kept then some p.property else none

/-! ### The heading -/

/-- A test that letters, the marks of types and blanks pass holds all over a heading. -/
theorem forall_headForm {q : Char → Prop} (name : ∀ c, bareChar c = true → q c) (marks : ∀ c, typeMark c = true → q c)
    (blanks : ∀ c, blank c = true → q c) : ∀ c ∈ p.headForm, q c := by
  have pad (g : Blanks) : ∀ c ∈ g.text, q c := fun c hc => blanks c (g.all c hc)
  have modifiers : ∀ c ∈ p.modifiers.flatMap Modifier.text, q c := by
    intro c hc
    obtain ⟨m, -, hc⟩ := List.mem_flatMap.1 hc
    rcases List.mem_append.1 hc with hc | hc
    · exact name c (bareChar_of_wordChar (m.letters.2 c hc))
    · exact pad m.gap c hc
  exact List.forall_mem_append.2 ⟨List.forall_mem_append.2 ⟨modifiers, List.forall_mem_append.2
    ⟨p.type.forall_mem name marks (blanks _ (by decide)), List.forall_mem_append.2
      ⟨pad p.gap, fun c hc => name c (p.name.bare.chars c hc)⟩⟩⟩, pad p.below⟩

theorem codeMark_of_typeMark {c : Char} (h : typeMark c = true) : codeMark c = true := by
  simp only [typeMark, Bool.or_eq_true, beq_iff_eq] at h
  rcases h with ((((rfl | rfl) | rfl) | rfl) | rfl) | rfl <;> decide

theorem codeMarks_headForm : ∀ c ∈ p.headForm, codeMark c = true :=
  p.forall_headForm (fun _ bare => codeMark_of_bareChar bare) (fun _ mark => codeMark_of_typeMark mark)
    (fun _ space => codeMark_of_blank space)

/-- A character that is none of those does not stand in a heading. -/
theorem ne_of_mem_headForm {c d : Char} (hc : c ∈ p.headForm) (bare : bareChar d = false) (mark : typeMark d = false)
    (solid : blank d = false) : c ≠ d :=
  p.forall_headForm (fun _ h => ne_of_test h bare) (fun _ h => ne_of_test h mark) (fun _ h => ne_of_test h solid) c hc

theorem words_modifiers (modifiers : List Modifier) (t : Text) :
    Text.words (modifiers.flatMap Modifier.text ++ t) = modifiers.map Modifier.word ++ Text.words t := by
  induction modifiers with
  | nil => rfl
  | cons m modifiers ih =>
    obtain ⟨d, ds, e⟩ := List.exists_cons_of_ne_nil m.apart
    obtain ⟨space, blanks⟩ := List.forall_mem_cons.1 (e ▸ m.gap.all)
    have word : Text.words m.word = [m.word] :=
      Text.words_single m.letters.1 fun c hc => not_blank_of_wordChar (m.letters.2 c hc)
    rw [List.flatMap_cons, Modifier.text, e, List.append_assoc, List.append_assoc, List.cons_append,
      Text.words_append_blank space, word, Text.words_blanks_append blanks, ih]
    rfl

theorem words_name : Text.words p.name.text = [p.name.text] :=
  Text.words_single p.name.bare.filled fun c hc => not_blank_of_wordChar (p.name.wordChars c hc)

theorem words_headForm : Text.words p.headForm = p.words ++ (Text.words p.written ++ [p.name.text]) := by
  obtain ⟨d, ds, e⟩ := List.exists_cons_of_ne_nil p.apart
  obtain ⟨space, blanks⟩ := List.forall_mem_cons.1 (e ▸ p.gap.all)
  rw [headForm, Text.words_append_blanks p.below.all, signatureForm, words_modifiers, e, List.cons_append,
    Text.words_append_blank space, Text.words_blanks_append blanks, words_name]
  rfl

theorem words_declaration : Text.words (p.written ++ ' ' :: p.name.text) = Text.words p.written ++ [p.name.text] := by
  rw [Text.words_append_blank (by decide), words_name]

theorem collapse_declaration : Text.collapse (p.written ++ ' ' :: p.name.text) = p.written ++ ' ' :: p.name.text := by
  refine Text.collapse_spaced ?_
  rw [Text.spaced_append (p.type.spaced true), Text.spaced, if_pos (by decide)]
  exact p.name.bare.spaced true

/-- **A heading on one line**: its words one space apart. -/
theorem collapse_headForm : (mask false p.headForm).collapse = p.signature := by
  have joined (ws : List Text) : Text.join " " (ws ++ (Text.words p.written ++ [p.name.text])) =
      ws.flatMap (· ++ [' ']) ++ (p.written ++ ' ' :: p.name.text) := by
    have filled : Text.words p.written ++ [p.name.text] ≠ [] := by simp
    induction ws with
    | nil =>
      have same := p.collapse_declaration
      rwa [Text.collapse, words_declaration] at same
    | cons w ws ih =>
      obtain ⟨u, us, e⟩ := List.exists_cons_of_ne_nil (l := ws ++ (Text.words p.written ++ [p.name.text])) (by simp)
      rw [List.cons_append, e, Text.join_cons, ← e, ih]
      simp
  rw [(masks_plain p.codeMarks_headForm false).mask_eq, Text.collapse, words_headForm, joined]
  rfl

theorem words_signature : Text.words p.signature = p.words ++ (Text.words p.written ++ [p.name.text]) := by
  rw [← p.collapse_headForm, (masks_plain p.codeMarks_headForm false).mask_eq, Text.words_collapse, words_headForm]

theorem mem_signature {c : Char} (h : c ∈ p.signature) : c = ' ' ∨ c ∈ p.headForm := by
  rw [← p.collapse_headForm, (masks_plain p.codeMarks_headForm false).mask_eq] at h
  exact Text.mem_collapse h

/-! ### What is read of the heading -/

theorem without_this : Text.Without [("this" : Text)] p.headForm := by
  have marks (g : Blanks) : ∀ c ∈ g.text, wordChar c = false := fun c hc => not_wordChar_of_blank (g.all c hc)
  have type : Text.Without [("this" : Text)] p.written := p.unreserved.mono (by simp [keptTypeWords])
  have name : Text.Without [("this" : Text)] (p.name.text ++ p.below.text) :=
    (Text.Without.single p.name.bare.filled p.name.wordChars (by simpa using p.named)).append_marks (marks p.below)
  have declaration : Text.Without [("this" : Text)] (p.written ++ (p.gap.text ++ (p.name.text ++ p.below.text))) := by
    refine type.append_of_head (name.marks_append (marks p.gap)) fun c hc => ?_
    rw [List.head?_append_of_ne_nil _ p.apart] at hc
    exact marks p.gap c (List.mem_of_mem_head? hc)
  have shape : p.headForm =
      p.modifiers.flatMap Modifier.text ++ (p.written ++ (p.gap.text ++ (p.name.text ++ p.below.text))) := by
    simp only [headForm, signatureForm, List.append_assoc]
  rw [shape]
  induction p.modifiers with
  | nil => exact declaration
  | cons m modifiers ih =>
    have other : m.word ∉ [("this" : Text)] := by
      intro same
      exact absurd (List.mem_singleton.1 same ▸ m.listed) (by decide)
    have word := (Text.Without.single m.letters.1 m.letters.2 other).append_marks (marks m.gap)
    rw [List.flatMap_cons, List.append_assoc]
    refine word.append_of_last ih fun c hc => ?_
    rw [List.getLast?_append_of_ne_nil _ m.apart] at hc
    exact marks m.gap c (List.mem_of_getLast? hc)

/-- No indexer is declared. -/
theorem contains_signature : Text.contains " this[" p.signature = false := by
  rw [Bool.eq_false_iff]
  intro found
  obtain ⟨⟨before, rest⟩, found⟩ := Option.isSome_iff_exists.1 found
  have whole : before ++ ' ' :: ("this".toList ++ '[' :: rest) = p.signature := by
    rw [← splitFirst?_append found, List.append_assoc]
    rfl
  have indexed : ("this" : Text) ∈ Text.runWords p.signature := by
    rw [← whole, Text.runWords_append_mark (by decide), Text.runWords_append_mark (by decide),
      Text.runWords_single (t := "this") (by decide) (Text.forall_of_all (by decide))]
    simp
  rw [← p.collapse_headForm, (masks_plain p.codeMarks_headForm false).mask_eq, Text.runWords_collapse] at indexed
  exact p.without_this _ indexed List.mem_cons_self

theorem visible?_signature : visible? p.signature =
    if p.words.any (hidingModifiers.contains ·) && !p.words.contains "public" || p.words.contains "static" then none
    else some (p.words, Text.words p.written ++ [p.name.text]) := by
  obtain ⟨word, rest, type, free⟩ := p.type.exists_word_without
    (fun word listed => List.all_eq_true.2 (letters_keptTypeWords word listed).2) p.unreserved
  have stop : ¬ (propertyModifiers.contains word || hidingModifiers.contains word) = true := by
    simp only [keptTypeWords, allModifiers, List.mem_append, not_or] at free
    simp [free.1.1, free.1.2]
  have all : ∀ w ∈ p.words, (propertyModifiers.contains w || hidingModifiers.contains w) = true := by
    refine List.forall_mem_map.2 fun m _ => ?_
    simpa [allModifiers] using m.listed
  have modifiers : (p.words ++ (Text.words p.written ++ [p.name.text])).takeWhile
      (fun w => propertyModifiers.contains w || hidingModifiers.contains w) = p.words := by
    rw [type, List.cons_append, List.takeWhile_append_of_pos all]
    exact (congrArg (p.words ++ ·) (List.takeWhile_cons_of_neg stop)).trans (List.append_nil _)
  simp only [visible?, words_signature, modifiers, List.drop_left]

theorem typeAndName?_words : typeAndName? (Text.words p.written ++ [p.name.text]) = some (p.canonical, p.name.text) := by
  have joined : Text.join " " (Text.words p.written ++ [p.name.text]) = p.written ++ ' ' :: p.name.text := by
    rw [← words_declaration]
    exact p.collapse_declaration
  have filled : p.canonical.isEmpty = false := List.isEmpty_eq_false_iff.2 p.type.canonical_ne_nil
  simp only [typeAndName?, joined, p.name.trailingIdentifier?_behind, Option.bind_eq_bind, Option.bind_some,
    p.type.trim_append_space, p.type.tidyType_eq, filled, Bool.false_eq_true, if_false]

/-- **What a member with this heading and this block tells.** -/
theorem told_of_reads {m : MemberBlock} (marks : m.attributeText = p.groups.text)
    (signature : m.signature = (mask false p.headForm).collapse) (terminator : m.terminator = .block)
    (block : m.accessorText = accessorBlock p.accessors p.bottom) : m.told = p.told := by
  rw [p.collapse_headForm] at signature
  have absent {d : Char} (bare : bareChar d = false) (mark : typeMark d = false) (solid : blank d = false) :
      d ∉ p.signature := by
    intro hd
    rcases p.mem_signature hd with rfl | hd
    · cases solid
    · exact p.ne_of_mem_headForm hd bare mark solid rfl
  have method : m.isMethod = false :=
    PropertyEntry.isMethod_signature (signature ▸ absent (by decide) (by decide) (by decide))
  have filled : p.signature ≠ [] := by simp [AutoProperty.signature]
  have empty : p.signature.isEmpty = false := List.isEmpty_eq_false_iff.2 filled
  have equals : Text.startsWith "=" p.signature = false := by
    rw [Bool.eq_false_iff]
    intro starts
    obtain ⟨rest, e⟩ := List.isPrefixOf_iff_prefix.1 starts
    exact absent (d := '=') (by decide) (by decide) (by decide) (e ▸ List.mem_cons_self)
  have long : ¬ (Text.words p.written ++ [p.name.text]).length < 2 := by
    obtain ⟨word, rest, type, -⟩ := p.type.exists_word
    rw [type]
    simp
  have settled : settable m.accessorText = p.accessors.any Accessor.open? :=
    block ▸ settable_accessorBlock p.accessors p.bottom
  have shown : p.kept = (p.accessors.any Accessor.open? &&
      !(p.words.any (hidingModifiers.contains ·) && !p.words.contains "public" || p.words.contains "static")) := by
    rw [kept]
    cases p.accessors.any Accessor.open? <;> cases p.words.any (hidingModifiers.contains ·) <;>
      cases p.words.contains "public" <;> cases p.words.contains "static" <;> rfl
  rw [MemberBlock.told, propertyOf, told, shown]
  simp only [method, terminator, signature, empty, equals, p.contains_signature, settled, marks, ne_eq, not_true_eq_false,
    decide_false, Bool.or_self, Bool.false_or, p.visible?_signature]
  cases p.accessors.any Accessor.open? with
  | false => rfl
  | true =>
    cases p.words.any (hidingModifiers.contains ·) && !p.words.contains "public" || p.words.contains "static" with
    | true => rfl
    | false =>
      simp only [Bool.not_true, Bool.false_eq_true, if_false, Option.bind_eq_bind, Option.bind_some, if_neg long,
        p.typeAndName?_words, Traced.value_bind, Traced.value_unreported, Traced.value_pure]
      rfl

/-! ### The whole property -/

def tailForm : Text :=
  match p.initializer with
  | none => []
  | some i => i.form ++ [';']

def tailCode : Text :=
  match p.initializer with
  | none => []
  | some i => i.code ++ [';']

def form : Text := p.frontForm ++ p.tailForm

def code : Text := p.frontCode ++ p.tailCode

theorem exists_head : ∃ c, p.headForm.head? = some c ∧ c ≠ '[' ∧ EndpointSurvey.blank c = false := by
  have letter {c : Char} (bare : bareChar c = true) : c ≠ '[' ∧ EndpointSurvey.blank c = false :=
    ⟨ne_of_bareChar bare (by decide), not_blank_of_bareChar bare⟩
  rw [headForm, signatureForm]
  cases p.modifiers with
  | nil =>
    obtain ⟨first, rest, tail, e, -, -⟩ := p.type.exists_head
    have bare := dottedName_bare first rest
    obtain ⟨c, cs, name⟩ := List.exists_cons_of_ne_nil bare.filled
    rw [e, name]
    exact ⟨c, rfl, letter (bare.chars c (name ▸ List.mem_cons_self))⟩
  | cons m modifiers =>
    obtain ⟨filled, letters⟩ := m.letters
    obtain ⟨c, cs, word⟩ := List.exists_cons_of_ne_nil filled
    rw [List.flatMap_cons, Modifier.text, word]
    exact ⟨c, rfl, letter (bareChar_of_wordChar (letters c (word ▸ List.mem_cons_self)))⟩

theorem pairs_square_headForm : Paired '[' ']' p.headForm := by
  have pad (g : Blanks) : Paired '[' ']' g.text := .of_free fun c hc => ⟨g.ne (by decide) c hc, g.ne (by decide) c hc⟩
  have word {t : Text} (bare : ∀ c ∈ t, bareChar c = true) : Paired '[' ']' t := .of_free fun c hc =>
    ⟨ne_of_bareChar (bare c hc) (by decide), ne_of_bareChar (bare c hc) (by decide)⟩
  have modifiers : Paired '[' ']' (p.modifiers.flatMap Modifier.text) := .flatMap fun m _ =>
    (word fun c hc => bareChar_of_wordChar (m.letters.2 c hc)).append (pad m.gap)
  exact (modifiers.append (p.type.pairs_square.append ((pad p.gap).append (word p.name.bare.chars)))).append (pad p.below)

/-- the heading with the blanks in front of it -/
theorem forall_heading {q : Char → Prop} (head : ∀ c ∈ p.headForm, q c) (blanks : ∀ c, EndpointSurvey.blank c = true → q c) :
    ∀ c ∈ p.above.text ++ p.headForm, q c :=
  List.forall_mem_append.2 ⟨fun c hc => blanks c (p.above.all c hc), head⟩

theorem masks_front : Masks true p.frontForm p.frontCode := by
  have heading : ∀ c ∈ p.above.text ++ p.headForm, codeMark c = true :=
    p.forall_heading p.codeMarks_headForm fun _ space => codeMark_of_blank space
  have block : ∀ c ∈ accessorBlock p.accessors p.bottom, codeMark c = true := List.forall_mem_cons.2
    ⟨by decide, List.forall_mem_append.2 ⟨codeMarks_accessors p.accessors p.bottom, by decide⟩⟩
  exact (p.groups.masks.append (masks_plain heading true)).append (masks_plain block true)

theorem masks : Masks true p.form p.code := by
  rw [form, code, tailForm, tailCode]
  cases p.initializer with
  | none => exact p.masks_front.append masks_nil
  | some i => exact p.masks_front.append i.masks

theorem pairs_accessors : Paired '\x7b' '\x7d' (p.accessors.flatMap Accessor.text ++ p.bottom.text) :=
  .of_free <| forall_accessors p.accessors p.bottom
    (fun _ word => ⟨ne_of_test word (by decide), ne_of_test word (by decide)⟩)
    (fun _ space => ⟨ne_of_test space (by decide), ne_of_test space (by decide)⟩) (by decide)

theorem plain_heading : Plain (p.above.text ++ p.headForm) :=
  p.forall_heading (fun _ hc => ⟨p.ne_of_mem_headForm hc (by decide) (by decide) (by decide),
    p.ne_of_mem_headForm hc (by decide) (by decide) (by decide), p.ne_of_mem_headForm hc (by decide) (by decide) (by decide)⟩)
    fun _ space => ⟨ne_of_test space (by decide), ne_of_test space (by decide), ne_of_test space (by decide)⟩

theorem bracesPair_code : Paired '\x7b' '\x7d' p.code := by
  have front : Paired '\x7b' '\x7d' p.frontCode :=
    (p.groups.plain.paired.append p.plain_heading.paired).append (p.pairs_accessors.group (by decide))
  rw [code, tailCode]
  cases p.initializer with
  | none => exact front.append rfl
  | some i => exact front.append (i.plain_code.paired.append (.of_free (by decide)))

/-- **A property tells of itself if it is kept, whatever its initializer is.** -/
theorem tells : Tells p.form p.code p.told.toList := by
  obtain ⟨c, head, other, solid⟩ := p.exists_head
  have pad {d : Char} (free : EndpointSurvey.blank d = false) : ∀ c ∈ p.above.text, c ≠ d := p.above.ne free
  have equals : ∀ c ∈ p.above.text ++ p.headForm, c ≠ '=' :=
    p.forall_heading (fun _ hc => p.ne_of_mem_headForm hc (by decide) (by decide) (by decide))
      fun _ space => ne_of_test space (by decide)
  have square : Paired '[' ']' (p.above.text ++ p.headForm) :=
    (Paired.of_free fun c hc => ⟨pad (by decide) c hc, pad (by decide) c hc⟩).append p.pairs_square_headForm
  have round : Paired '(' ')' (p.above.text ++ p.headForm) := .of_free <|
    p.forall_heading (fun _ hc => ⟨p.ne_of_mem_headForm hc (by decide) (by decide) (by decide),
      p.ne_of_mem_headForm hc (by decide) (by decide) (by decide)⟩)
      fun _ space => ⟨ne_of_test space (by decide), ne_of_test space (by decide)⟩
  have front : Tells p.frontForm p.frontCode p.told.toList :=
    tells_block head other solid rfl p.plain_heading (fun arrow => equals '=' (arrow.subset (by simp)) rfl) square round
      p.pairs_accessors rfl fun _ marks signature terminator block => p.told_of_reads marks signature terminator block
  rw [form, code, tailForm, tailCode]
  cases p.initializer with
  | none => simpa using front
  | some i =>
    have size : i.form.length = i.code.length := by simp [Initializer.form, Initializer.code, i.value.length_eq]
    simpa using front.append (tells_statement size i.plain_code)

end AutoProperty

end Rendered

end EndpointSurvey
