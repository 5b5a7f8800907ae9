/-
Properties of a model as they are rendered from a description: as parameters, with attributes that are meant for the
property in front, and as members with accessors. The reading of a member gives back the whole description; that of a
parameter knows no attributes, and takes the brackets of an array for those of a group.

Main statements: `PropertyEntry.positionalProperty?_parameter`, `PropertyEntry.nextCut?_member`,
`PropertyEntry.memberOf?_member` and `membersOf_entries`.
-/
import EndpointSurvey.Catalog.Description
import EndpointSurvey.Proofs.Rendered.AttributeCode
import EndpointSurvey.Proofs.Rendered.TypeSpelling

namespace EndpointSurvey

namespace Rendered

open Lexeme

/-! ## A type and a name -/

/-- a type and a name behind it -/
def TypeTree.declaration (t : TypeTree) (name : Identifier) : Text := t.text ++ ' ' :: name.text

namespace TypeTree

variable (t : TypeTree) (name : Identifier)

theorem declaration_ne_nil : t.declaration name ≠ [] := by simp [declaration]

/-- A test that names and the marks of types pass holds all over a declaration. -/
theorem forall_declaration {p : Char → Prop} (named : ∀ c, bareChar c = true → p c)
    (marks : ∀ c ∈ (['<', '>', '[', ']', '?', ',', ' '] : Text), p c) : ∀ c ∈ t.declaration name, p c :=
  List.forall_mem_append.2 ⟨(property_all (fun c dotted => named c (bareChar_of_dottedChar dotted)) marks).tree t,
    List.forall_mem_cons.2 ⟨marks _ (by decide), fun c hc => named c (name.bare.chars c hc)⟩⟩

theorem codeMarks_declaration : ∀ c ∈ t.declaration name, codeMark c = true :=
  t.forall_declaration name (fun _ bare => codeMark_of_bareChar bare) (by decide)

theorem spaced_declaration (afterBlank : Bool) : Text.spaced afterBlank (t.declaration name) = true := by
  rw [declaration, Text.spaced_append (t.spaced afterBlank), Text.spaced, if_pos (by decide)]
  exact name.bare.spaced true

theorem declaration_ends : (∀ c ∈ (t.declaration name).head?, blank c = false) ∧
    ∀ c ∈ (t.declaration name).getLast?, blank c = false := by
  refine ⟨fun c hc => t.head_solid c ?_, Text.spaced_last (t.spaced_declaration name false)⟩
  rwa [declaration, List.head?_append_of_ne_nil _ t.ne_nil] at hc

theorem pairs_square_declaration : Paired '[' ']' (t.declaration name) := by
  have named : Paired '[' ']' name.text := .of_free fun c hc =>
    ⟨name.bare.ne_of_mem hc (by decide), name.bare.ne_of_mem hc (by decide)⟩
  exact t.pairs_square.append (named.cons (by decide) (by decide))

theorem pairs_round_declaration : Paired '(' ')' (t.declaration name) :=
  .of_free <| t.forall_declaration name
    (fun _ bare => ⟨ne_of_bareChar bare (by decide), ne_of_bareChar bare (by decide)⟩) (by decide)

/-- No declaration of a type is headed where no word of the type is a keyword, whatever the name is. -/
theorem unheaded_declaration (free : Text.Without declaringWords t.text) {g : Text} (blanks : ∀ c ∈ g, blank c = true) :
    Unheaded (t.declaration name ++ g) := by
  have words : Text.Without declaringWords (t.text ++ [' ']) := free.append_marks (by decide)
  have whole := (name.bare.unheaded blanks).without_append (List.getLast?_concat ..) (by decide) words
  rwa [List.append_assoc, List.singleton_append, ← List.cons_append, ← List.append_assoc] at whole

end TypeTree

/-! ## Properties -/

/-- words that declare, modify or index, and name no type -/
def reservedWords : List Text := declaringWords ++ propertyModifiers ++ hidingModifiers ++ [("this" : Text)]

/-- a property of a model: groups of attributes, a type and a name -/
structure PropertyEntry where
  groups : List Group
  type : TypeTree
  name : Identifier
  unreserved : Text.Without reservedWords type.text

/-- the accessors of a property that can be set -/
def accessors : Text := "\x7b get; init; \x7d"

namespace PropertyEntry

variable (e : PropertyEntry)

def declaration : Text := e.type.declaration e.name

/-- the property as a parameter -/
def parameter (literal : Text → Text) (e : PropertyEntry) : Text :=
  (e.groups.flatMap fun g => g.targeted literal ++ [' ']) ++ e.declaration

/-- the signature of the property as a member -/
def signature : Text := "public " ++ e.declaration

/-- a member up to its accessors, with a space in front -/
def heading (literal : Text → Text) (e : PropertyEntry) : Text :=
  spacedGroups literal e.groups ++ ' ' :: (e.signature ++ [' '])

/-- the property as a member, with a space in front -/
def member (literal : Text → Text) (e : PropertyEntry) : Text := e.heading literal ++ accessors

def attributes : List Attribute := e.groups.flatMap Group.attributes

/-- the property described -/
def property : Property :=
  { name := e.name.text
    typeText := e.type.text
    comment := none
    jsonName := jsonNameOf e.attributes
    required := Attribute.has "Required" e.attributes }

/-- what the reading of parameters keeps of the property -/
def stripped : Property := ⟨e.name.text, e.type.withoutArrays.text, none, none, false⟩

/-- no closing square bracket stands inside the groups -/
def Legible : Prop := ∀ g ∈ e.groups, ']' ∉ g.inside id

theorem undeclaring : Text.Without declaringWords e.type.text :=
  e.unreserved.mono fun word declares => by simp [reservedWords, declares]

/-! ## The property as a parameter -/

theorem masks_parameter : Masks true (e.parameter id) (e.parameter blankOut) :=
  have space : Masks true [' '] [' '] := masks_plain (Text.forall_of_all (by decide)) true
  (masks_flatMap fun g _ => g.masks_targeted.append space).append
    (masks_plain (e.type.codeMarks_declaration e.name) true)

theorem pairs_parameter : Paired '(' ')' (e.parameter blankOut) :=
  (Paired.flatMap fun g _ => g.pairs_targeted.append (.of_free (by decide))).append
    (e.type.pairs_round_declaration e.name)

theorem unheaded_parameter : Unheaded (e.parameter blankOut) := by
  have closed : Stops ']' := by constructor <;> decide
  have declaration : Unheaded e.declaration := by
    rw [← List.append_nil e.declaration]
    exact e.type.unheaded_declaration e.name e.undeclaring (by simp)
  rw [parameter]
  induction e.groups with
  | nil => exact declaration
  | cons g groups ih =>
    have last : (g.targeted blankOut).getLast? = some ']' := by
      rw [Group.targeted, ← List.append_assoc, ← List.cons_append, List.getLast?_concat]
    rw [List.flatMap_cons, List.append_assoc, List.append_assoc]
    exact g.unheaded_targeted.append_of_last closed last (ih.marks_append (by decide))

theorem onePiece_parameter : OnePiece true 0 (e.parameter id) := by
  have space {t : Text} (piece : OnePiece true 0 t) : OnePiece true 0 ([' '] ++ t) :=
    piece.plain_append (Text.forall_of_all (by decide)) (.inr (by decide))
  have declaration : OnePiece true 0 e.declaration :=
    (e.type.onePiece 0).append (space (e.name.bare.onePiece true 0)) (by simp)
  rw [parameter]
  induction e.groups with
  | nil => exact declaration
  | cons g groups ih =>
    rw [List.flatMap_cons, List.append_assoc, List.append_assoc]
    exact (g.onePiece_targeted 0).append (space ih) (by simp)

theorem parameter_ne_nil : e.parameter id ≠ [] :=
  List.append_ne_nil_of_right_ne_nil _ (e.type.declaration_ne_nil e.name)

theorem trim_parameter : (e.parameter id).trim = e.parameter id := by
  obtain ⟨first, last⟩ := e.type.declaration_ends e.name
  have filled : e.declaration ≠ [] := e.type.declaration_ne_nil e.name
  refine Text.trim_ends ?_ fun c hc => last c ?_
  · rw [parameter]
    cases e.groups with
    | nil => exact first
    | cons g groups =>
      rintro c ⟨⟩
      decide
  · rw [parameter, List.getLast?_append_of_ne_nil _ filled] at hc
    exact hc

/-- Dropping the groups leaves the spaces behind them. -/
theorem replaceGroups_targeted {groups : List Group} (legible : ∀ g ∈ groups, ']' ∉ g.inside id) (rest : Text) :
    replaceGroups [] ((groups.flatMap fun g => g.targeted id ++ [' ']) ++ rest) =
      List.replicate groups.length ' ' ++ replaceGroups [] rest := by
  induction groups with
  | nil => rfl
  | cons g groups ih =>
    obtain ⟨here, later⟩ := List.forall_mem_cons.1 legible
    have free : ']' ∉ "property: ".toList ++ g.inside id := by
      rw [List.mem_append, not_or]
      exact ⟨by decide, here⟩
    have space := replaceGroups_append [] (show '[' ∉ ([' '] : Text) by decide)
      ((groups.flatMap fun g => g.targeted id ++ [' ']) ++ rest)
    have shape : ((g :: groups).flatMap fun g => g.targeted id ++ [' ']) ++ rest =
        '[' :: (("property: ".toList ++ g.inside id) ++
          ']' :: ([' '] ++ ((groups.flatMap fun g => g.targeted id ++ [' ']) ++ rest))) := by simp [Group.targeted]
    rw [shape, replaceGroups_group free, space, ih later]
    rfl

/-- What is left of a parameter is its declaration without arrays. -/
theorem declared_parameter (legible : e.Legible) :
    declared (e.parameter id) = e.type.withoutArrays.declaration e.name := by
  have name : '[' ∉ ' ' :: e.name.text := by
    rw [List.mem_cons, not_or]
    exact ⟨by decide, fun hc => e.name.bare.ne_of_mem hc (by decide) rfl⟩
  have left : replaceGroups [] (e.parameter id) =
      List.replicate e.groups.length ' ' ++ (e.type.withoutArrays.declaration e.name ++ []) := by
    rw [parameter, replaceGroups_targeted legible, declaration, TypeTree.declaration, e.type.replaceGroups_text,
      replaceGroups_plain [] name, TypeTree.declaration, List.append_nil]
  have spaces : ∀ c ∈ List.replicate e.groups.length ' ', c = ' ' := fun c hc => List.eq_of_mem_replicate hc
  have equals : ∀ c ∈ List.replicate e.groups.length ' ' ++ (e.type.withoutArrays.declaration e.name ++ []),
      (c != '=') = true := by
    rw [List.append_nil]
    refine List.forall_mem_append.2 ⟨fun c hc => by rw [spaces c hc]; decide, ?_⟩
    exact TypeTree.forall_declaration _ _ (fun c bare => bne_iff_ne.2 (ne_of_bareChar bare (by decide))) (by decide)
  obtain ⟨first, last⟩ := e.type.withoutArrays.declaration_ends e.name
  rw [declared, left, Text.beforeFirst, List.takeWhile_eq_self_iff.2 equals]
  exact Text.trim_padded (fun c hc => by rw [spaces c hc]; decide) (by simp) first last

/-- **A parameter is read without its attributes and its arrays.** -/
theorem positionalProperty?_parameter (legible : e.Legible) :
    positionalProperty? (e.parameter id) = some e.stripped := by
  generalize type : e.type.withoutArrays = t
  have whole : t.declaration e.name = (t.text ++ [' ']) ++ e.name.text := by simp [TypeTree.declaration]
  have solid : ∀ c ∈ e.name.text, (!EndpointSurvey.blank c) = true := fun c hc => by
    rw [not_blank_of_wordChar (e.name.wordChars c hc)]
    rfl
  have name : Text.takeEnd (!EndpointSurvey.blank ·) (t.declaration e.name) = e.name.text := by
    rw [whole, Text.takeEnd_append_stop (by rw [List.getLast?_concat]; rintro c ⟨⟩; rfl), Text.takeEnd_of_all solid]
  have before : Text.trimRight ((t.declaration e.name).take ((t.declaration e.name).length - e.name.text.length)) =
      t.text := by
    rw [whole, List.length_append, Nat.add_sub_cancel, List.take_left]
    exact Text.dropEnd_padded t.last_solid (by decide)
  have filled : t.text.isEmpty = false := List.isEmpty_eq_false_iff.2 t.ne_nil
  simp only [positionalProperty?, e.declared_parameter legible, type, name, before, e.name.start, e.name.word, filled,
    t.tidyType_text, Bool.not_false, Bool.and_self, if_true]
  rw [stripped, type]

/-! ## The property as a member -/

theorem codeMarks_signature : ∀ c ∈ e.signature ++ [' '], codeMark c = true :=
  List.forall_mem_append.2 ⟨List.forall_mem_append.2 ⟨Text.forall_of_all (by decide), e.type.codeMarks_declaration e.name⟩,
    by decide⟩

theorem masks_heading : Masks true (e.heading id) (e.heading blankOut) :=
  (masks_spacedGroups e.groups).append (masks_plain (List.forall_mem_cons.2 ⟨by decide, e.codeMarks_signature⟩) true)

theorem masks_member : Masks true (e.member id) (e.member blankOut) :=
  e.masks_heading.append (masks_plain (t := accessors) (Text.forall_of_all (by decide)) true)

/-- No declaration is headed in a member. -/
theorem unheaded_member : Unheaded (e.member blankOut) := by
  have brace : Stops '\x7b' := by constructor <;> decide
  have semicolon : Stops ';' := by constructor <;> decide
  have inside : Unheaded (" get; init; \x7d".toList) := by
    have get : Unheaded " get" := .marks_append (g := [' ']) (by decide)
      (.solid (s := "get") (g := []) (Text.forall_of_all (by decide)) (by simp))
    have init : Unheaded " init" := .marks_append (g := [' ']) (by decide)
      (.solid (s := "init") (g := []) (Text.forall_of_all (by decide)) (by simp))
    exact get.split semicolon (init.split semicolon (.marks (g := " \x7d") (by decide)))
  have word : Text.Without declaringWords (' ' :: ("public" ++ [' '])) :=
    ((Text.Without.single (t := "public") (by decide) (Text.forall_of_all (by decide)) (by decide)).append_marks
      (by decide)).cons_mark (by decide)
  have opening : Unheaded (' ' :: (e.signature ++ [' '])) := by
    have last : (' ' :: ("public".toList ++ [' '])).getLast? = some ' ' := by rw [← List.cons_append, List.getLast?_concat]
    have behind := e.type.unheaded_declaration e.name e.undeclaring (g := [' ']) (by decide)
    have whole := behind.without_append last (by decide) word
    rwa [List.cons_append, ← List.append_assoc] at whole
  have shape : e.member blankOut =
      spacedGroups blankOut e.groups ++ (' ' :: (e.signature ++ [' ']) ++ '\x7b' :: " get; init; \x7d".toList) := by
    rw [member, heading, List.append_assoc]
    rfl
  rw [shape]
  exact unheaded_spacedGroups e.groups (opening.split brace inside)

/-! ### Where a member is cut -/

/-- where the member ends, and where its accessors start -/
def cut : MemberCut :=
  let stop := (e.heading blankOut).length
  ⟨stop, (e.member blankOut).length, .block, some stop, false⟩

theorem forall_signature {p : Char → Prop} (name : ∀ c, bareChar c = true → p c)
    (marks : ∀ c ∈ (['<', '>', '[', ']', '?', ',', ' '] : Text), p c) : ∀ c ∈ e.signature, p c := by
  have word : ∀ c ∈ "public ".toList, bareChar c = true ∨ c = ' ' := Text.forall_of_all (by decide)
  refine List.forall_mem_append.2 ⟨?_, e.type.forall_declaration e.name name marks⟩
  intro c hc
  rcases word c hc with bare | rfl
  · exact name c bare
  · exact marks _ (by decide)

/-- Brackets of a kind pair up in front of the accessors if they do in the declaration. -/
theorem pairs_signature {opener closer : Char} (declaration : Paired opener closer e.declaration)
    (free : ∀ c ∈ "public ".toList, c ≠ opener ∧ c ≠ closer) : Paired opener closer (' ' :: (e.signature ++ [' '])) := by
  have space : ' ' ≠ opener ∧ ' ' ≠ closer := free ' ' (by decide)
  have last : Paired opener closer [' '] := .of_free (List.forall_mem_singleton.2 space)
  exact (((Paired.of_free free).append declaration).append last).cons space.1 space.2

/-- The only braces of a member are those of its accessors. -/
theorem pairs_member : Paired '\x7b' '\x7d' (e.member blankOut) := by
  have groups : ∀ c ∈ spacedGroups blankOut e.groups, c ≠ '\x7b' ∧ c ≠ '\x7d' :=
    forall_spacedGroups e.groups (fun c bare => ⟨ne_of_bareChar bare (by decide), ne_of_bareChar bare (by decide)⟩)
      (by decide) (by decide)
  have signature : ∀ c ∈ e.signature, c ≠ '\x7b' ∧ c ≠ '\x7d' :=
    e.forall_signature (fun c bare => ⟨ne_of_bareChar bare (by decide), ne_of_bareChar bare (by decide)⟩) (by decide)
  have heading : Paired '\x7b' '\x7d' (e.heading blankOut) := .of_free <| List.forall_mem_append.2
    ⟨groups, List.forall_mem_cons.2 ⟨by decide, List.forall_mem_append.2 ⟨signature, by decide⟩⟩⟩
  have inside : Paired '\x7b' '\x7d' (" get; init; ".toList) := .of_free (Text.forall_of_all (by decide))
  exact heading.append (inside.group (by decide))

/-- The scan for the end of a member passes over its heading. -/
theorem cutFrom_heading (rest : Text) :
    cutFrom 0 0 0 none (e.heading blankOut ++ rest) = cutFrom (e.heading blankOut).length 0 0 none rest := by
  have free : ∀ c ∈ spacedGroups blankOut e.groups, (c ≠ '\x7b' ∧ c ≠ ';') ∧ c ≠ '>' :=
    forall_spacedGroups e.groups (fun c bare => ⟨⟨ne_of_bareChar bare (by decide), ne_of_bareChar bare (by decide)⟩,
      ne_of_bareChar bare (by decide)⟩) (by decide) (by decide)
  have plain : ∀ c ∈ ' ' :: (e.signature ++ [' ']), c ≠ '\x7b' ∧ c ≠ ';' ∧ c ≠ '=' := by
    refine List.forall_mem_cons.2 ⟨by decide, List.forall_mem_append.2 ⟨?_, by decide⟩⟩
    exact e.forall_signature (fun c bare => ⟨ne_of_bareChar bare (by decide), ne_of_bareChar bare (by decide),
      ne_of_bareChar bare (by decide)⟩) (by decide)
  have square := e.pairs_signature (e.type.pairs_square_declaration e.name) (Text.forall_of_all (by decide))
  have round := e.pairs_signature (e.type.pairs_round_declaration e.name) (Text.forall_of_all (by decide))
  have groups := cutFrom_stretch (u := ' ' :: (e.signature ++ [' ']) ++ rest) (fun c hc => (free c hc).1)
    (fun front later same => by
      cases later with
      | nil => simp
      | cons c cs => simpa using (free c (by simp [same])).2)
    (pairs_spacedGroups_square e.groups) (pairs_spacedGroups_round e.groups) 0
  rw [heading, List.append_assoc, groups, cutFrom_plain plain square round, List.length_append, Nat.zero_add]

/-- **A member is cut where it ends**, whatever follows it. -/
theorem nextCut?_member (rest : Text) : nextCut? (e.member blankOut ++ rest) = some e.cut := by
  have closing : closing? '\x7b' '\x7d' ('\x7b' :: (" get; init; ".toList ++ '\x7d' :: rest)) = some 13 :=
    (closing?_eq_some_iff (by decide)).2 ⟨_, rest, rfl, rfl, nesting_of_free (Text.forall_of_all (by decide)) 0⟩
  have size : (e.member blankOut).length = (e.heading blankOut).length + 13 + 1 := by
    rw [member, List.length_append]
    rfl
  have shape : accessors ++ rest = '\x7b' :: (" get; init; ".toList ++ '\x7d' :: rest) := rfl
  rw [nextCut?, member, List.append_assoc, e.cutFrom_heading, shape, cutFrom, if_neg (by decide), if_neg (by decide),
    if_neg (by decide), if_neg (by decide), if_neg (by simp), if_pos rfl, closing]
  simp [cut, size]

/-! ### What is read of a member -/

/-- what a description says of a member -/
structure Reads (e : PropertyEntry) (m : MemberBlock) : Prop where
  attributeText : m.attributeText = (spacedGroups id e.groups).drop 1
  signature : m.signature = e.signature
  terminator : m.terminator = .block
  accessorText : m.accessorText = accessors

/-- A signature is on one line as it is, with the space behind it dropped. -/
theorem collapse_signature : (mask false (e.signature ++ [' '])).collapse = e.signature := by
  have spaced : Text.spaced true e.signature = true := by
    show Text.spaced true ("public".toList ++ ' ' :: e.declaration) = true
    rw [Text.spaced_append (by decide), Text.spaced, if_pos (by decide)]
    exact e.type.spaced_declaration e.name true
  rw [(masks_plain e.codeMarks_signature false).mask_eq, Text.collapse, Text.words_append_blanks (by decide)]
  exact Text.collapse_spaced spaced

/-- **The member is read back**: its attributes as written, its signature on one line, and its accessors. -/
theorem memberOf?_member {body : Source} {rest rest' : Text} (raw : body.raw = e.member id ++ rest)
    (code : body.code = e.member blankOut ++ rest') (offset : Nat) :
    ∃ m, memberOf? offset body e.cut = some m ∧ e.Reads m := by
  have size : (e.heading id).length = (e.heading blankOut).length := e.masks_heading.length_eq.symm
  have headRaw : (body.take e.cut.headingStop).raw = e.heading id := by
    rw [Source.raw_take, raw, member, List.append_assoc]
    exact List.take_left' size
  have headCode : (body.take e.cut.headingStop).code = e.heading blankOut := by
    rw [Source.code_take, code, member, List.append_assoc]
    exact List.take_left
  have block : (body.slice (e.heading blankOut).length (e.member blankOut).length).raw = accessors := by
    have width : (e.member blankOut).length - (e.heading blankOut).length = accessors.length := by
      rw [member, List.length_append, Nat.add_sub_cancel_left]
    rw [Source.raw_slice, raw, width, member, List.append_assoc, ← size, List.drop_left]
    exact List.take_left
  generalize hheading : body.take e.cut.headingStop = heading at headRaw headCode
  have first : (e.signature ++ [' ']).head? = some 'p' := rfl
  have lead : Text.leadingBlanks (e.heading blankOut) = 1 := leadingBlanks_spacedGroups e.groups first (by decide)
  obtain ⟨stop, groups, taken⟩ := leadingGroups_front e.groups first (by decide) (by decide)
  have filled : ¬ (1 = heading.length ∨ e.cut.unbalanced = true) := by
    rintro (same | unbalanced)
    · rw [Source.length, headCode, PropertyEntry.heading, List.length_append, List.length_cons, List.length_append,
        List.length_singleton] at same
      omega
    · cases unbalanced
  have written : (spacedGroups id e.groups).length = (spacedGroups blankOut e.groups).length :=
    (masks_spacedGroups e.groups).length_eq.symm
  rw [memberOf?]
  simp only [hheading, headCode, lead, Bool.or_eq_true, decide_eq_true_eq, if_neg filled]
  rw [PropertyEntry.heading, groups]
  refine ⟨_, rfl, ?_, ?_, rfl, block⟩
  · show ((heading.raw.drop 1).take (stop - 1)) = _
    rw [taken, List.length_drop, ← written, ← List.length_drop, headRaw, PropertyEntry.heading]
    cases spacedGroups id e.groups with
    | nil => rfl
    | cons c cs => exact List.take_left
  · show (mask false (heading.raw.drop _)).collapse = e.signature
    rw [headRaw, PropertyEntry.heading, ← written, ← List.drop_drop, List.drop_left]
    exact e.collapse_signature

/-- The words of a signature: the modifier, those of the type, the first of them no modifier, and the name. -/
theorem words_signature : ∃ word rest, Text.words e.signature = ("public" : Text) :: word :: (rest ++ [e.name.text]) ∧
    word ∉ reservedWords ∧ Text.join " " (word :: (rest ++ [e.name.text])) = e.declaration := by
  have letters : ∀ word ∈ reservedWords, word ≠ [] ∧ ∀ c ∈ word, wordChar c = true := by
    have checked : reservedWords.all fun word => !word.isEmpty && word.all wordChar := by decide
    simpa using checked
  obtain ⟨word, rest, type, free⟩ := e.type.exists_word letters e.unreserved
  have name : Text.words e.name.text = [e.name.text] :=
    Text.words_single e.name.bare.filled fun c hc => not_blank_of_wordChar (e.name.wordChars c hc)
  have declaration : Text.words e.declaration = word :: (rest ++ [e.name.text]) := by
    rw [PropertyEntry.declaration, TypeTree.declaration, Text.words_append_blank (by decide), type, name]
    rfl
  have modifier : Text.words "public" = [("public" : Text)] :=
    Text.words_single (by decide) (Text.forall_of_all (by decide))
  have joined : Text.collapse e.declaration = e.declaration :=
    Text.collapse_spaced (e.type.spaced_declaration e.name true)
  refine ⟨word, rest, ?_, free, by rwa [Text.collapse, declaration] at joined⟩
  show Text.words ("public".toList ++ ' ' :: e.declaration) = _
  rw [Text.words_append_blank (by decide), modifier, declaration]
  rfl

theorem visible?_signature : ∃ words, visible? e.signature = some ([("public" : Text)], words) ∧ 2 ≤ words.length ∧
    typeAndName? words = some (e.type.text, e.name.text) := by
  obtain ⟨word, rest, words, free, joined⟩ := e.words_signature
  have modifiers : (("public" : Text) :: word :: (rest ++ [e.name.text])).takeWhile
      (fun w => propertyModifiers.contains w || hidingModifiers.contains w) = [("public" : Text)] := by
    have stop : ¬ (propertyModifiers.contains word || hidingModifiers.contains word) = true := by
      simp only [reservedWords, List.mem_append, not_or] at free
      simp [free.1.1.2, free.1.2]
    rw [List.takeWhile_cons_of_pos (by decide)]
    exact congrArg (_ :: ·) (List.takeWhile_cons_of_neg stop)
  refine ⟨word :: (rest ++ [e.name.text]), ?_, by simp, ?_⟩
  · simp only [visible?, words, modifiers]
    rfl
  · have type : Text.trim (e.type.text ++ [' ']) = e.type.text :=
      Text.trim_padded (s := []) (by simp) (by decide) e.type.head_solid e.type.last_solid
    have filled : e.type.text.isEmpty = false := List.isEmpty_eq_false_iff.2 e.type.ne_nil
    simp only [typeAndName?, joined, PropertyEntry.declaration, TypeTree.declaration, e.name.trailingIdentifier?_behind,
      Option.bind_eq_bind, Option.bind_some, type, e.type.tidyType_text, filled, Bool.false_eq_true, if_false]

/-- No indexer is declared: the word for one stands in no type. -/
theorem contains_signature : Text.contains " this[" e.signature = false := by
  rw [Bool.eq_false_iff]
  intro found
  obtain ⟨⟨before, rest⟩, found⟩ := Option.isSome_iff_exists.1 found
  have whole : (before ++ " this[".toList) ++ rest = ("public ".toList ++ e.type.text) ++ ' ' :: e.name.text :=
    (splitFirst?_append found).trans (List.append_assoc ..).symm
  have name : '[' ∉ ' ' :: e.name.text := by
    rw [List.mem_cons, not_or]
    exact ⟨by decide, fun hc => e.name.bare.ne_of_mem hc (by decide) rfl⟩
  have front : ∃ more, "public ".toList ++ e.type.text = (before ++ " this[".toList) ++ more := by
    rcases List.append_eq_append_iff.1 whole with ⟨more, same, -⟩ | ⟨more, same, behind⟩
    · exact ⟨more, same⟩
    · -- what reaches into the name would end in a bracket there
      rcases List.eq_nil_or_concat more with rfl | ⟨rest', c, rfl⟩
      · exact ⟨[], by rw [List.append_nil, same, List.append_nil]⟩
      · have last : c = '[' := by
          have shape : before ++ " this[".toList = (before ++ " this".toList) ++ ['['] := by
            rw [List.append_assoc]
            rfl
          rw [shape, List.concat_eq_append, ← List.append_assoc] at same
          exact (List.cons.inj (List.append_inj_right' same rfl)).1.symm
        exact absurd (by simp [behind, last]) name
  obtain ⟨more, front⟩ := front
  have words : Text.runWords ("public ".toList ++ e.type.text) = ("public" : Text) :: Text.runWords e.type.text := by
    show Text.runWords ("public".toList ++ ' ' :: e.type.text) = _
    rw [Text.runWords_append_mark (by decide), Text.runWords_single (by decide) (Text.forall_of_all (by decide))]
    rfl
  have indexed : ("this" : Text) ∈ Text.runWords ((before ++ " this[".toList) ++ more) := by
    have shape : (before ++ " this[".toList) ++ more = before ++ ' ' :: ("this".toList ++ '[' :: more) := by
      rw [List.append_assoc]
      rfl
    rw [shape, Text.runWords_append_mark (by decide), Text.runWords_append_mark (by decide),
      Text.runWords_single (t := "this") (by decide) (Text.forall_of_all (by decide))]
    simp
  rw [← front, words, List.mem_cons] at indexed
  exact e.unreserved _ (indexed.resolve_left (by decide)) (by decide)

theorem settable_accessors : settable accessors = true := by
  rw [settable, (masks_plain (t := accessors) (Text.forall_of_all (by decide)) true).mask_eq]
  decide +kernel

theorem isMethod_signature {m : MemberBlock} (free : '(' ∉ m.signature) : m.isMethod = false := by
  have absent {t : Text} {other : Bool} (sub : t ⊆ m.signature) : (t.elem '(' && other) = false := by
    rw [Bool.and_eq_false_iff]
    exact .inl (by simpa using fun hc => free (sub hc))
  rw [MemberBlock.isMethod]
  split
  · next before rest found =>
    have whole := splitFirst?_append found
    rw [List.append_assoc] at whole
    exact absent (by rw [← whole]; exact List.subset_append_left _ _)
  · exact absent (List.Subset.refl _)

/-- The property of a member read so is the one described, apart from its documentation. -/
theorem Reads.value_propertyOf {m : MemberBlock} (r : e.Reads m) :
    (propertyOf m).value = some { e.property with comment := m.doc } := by
  obtain ⟨words, visible, long, typed⟩ := e.visible?_signature
  have paren : '(' ∉ m.signature := by
    rw [r.signature]
    intro hc
    exact e.forall_signature (p := (· ≠ '(')) (fun c bare => ne_of_bareChar bare (by decide)) (by decide) _ hc rfl
  have filled : e.signature.isEmpty = false := rfl
  have started : Text.startsWith "=" e.signature = false := rfl
  have read : EndpointSurvey.attributes none m.attributeText = pure e.attributes := by
    rw [r.attributeText]
    exact attributes_spacedGroups e.groups
  have index := e.contains_signature
  rw [propertyOf]
  simp only [isMethod_signature paren, r.terminator, r.signature, filled, started, index, r.accessorText,
    settable_accessors, visible, ne_eq, not_true_eq_false, decide_false, Bool.not_true, Bool.or_self, Bool.false_eq_true,
    if_false, Option.bind_eq_bind, Option.bind_some, if_neg (Nat.not_lt.2 long), typed, read]
  rfl

end PropertyEntry

/-- **The members of a rendered body** are those of its entries, in order. -/
theorem membersOf_entries {entries : List PropertyEntry} {body : Source}
    (raw : body.raw = entries.flatMap (PropertyEntry.member id) ++ [' '])
    (code : body.code = entries.flatMap (PropertyEntry.member blankOut) ++ [' ']) (offset : Nat) :
    List.Forall₂ PropertyEntry.Reads entries (membersOf offset body) := by
  have last : nextCut? [' '] = none := by simp [nextCut?, cutFrom]
  exact membersOf_flatMap (fun e => e.masks_member.length_eq.symm) (fun _ => rfl) PropertyEntry.nextCut?_member
    (fun e _ _ _ raw code offset => e.memberOf?_member raw code offset) last raw code offset

end Rendered

end EndpointSurvey
