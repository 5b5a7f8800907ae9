/-
Parameter lists as they are rendered from a description: each parameter maybe an attribute group, then a type, a name
and maybe a default, which is a number or another word, or a literal. The splitter ends a character literal at a double
quote, so behind a default `'"'` it takes the code for quoted and misses the comma.

Main statements: `ofText?_text` (a parameter is read back, whatever its default) and `parameterList_text` (a list is
read back if and only if that default stands at most in its last parameter).
-/
import EndpointSurvey.Proofs.Binding.Declared
import EndpointSurvey.Proofs.Rendered.AttributeLists
import EndpointSurvey.Proofs.Rendered.TypeForms

namespace EndpointSurvey

/-! ## Character literals in the eyes of a splitter -/

/-- what stands between the apostrophes of a character literal: a character, or an escape with its digits -/
inductive CharacterBody : Text → Prop where
  | plain {c : Char} (free : c ≠ '\'' ∧ c ≠ '\\' ∧ c ≠ '\n') : CharacterBody [c]
  | escape {mark : Char} {digits : Text} (line : mark ≠ '\n') (hex : ∀ c ∈ digits, c.isAlphanum = true)
    (short : digits.length ≤ 8) : CharacterBody ('\\' :: mark :: digits)

namespace Splitter

variable {angle : Bool} {depth : Nat}

theorem passes?_inCharacter {t : Text} (free : ∀ c ∈ t, c ≠ '\\' ∧ c ≠ '"' ∧ c ≠ '\'') (before : Option Char) :
    ∃ last, passes? ',' angle ⟨.character, depth, before⟩ t = some ⟨.character, depth, last⟩ := by
  induction t generalizing before with
  | nil => exact ⟨before, rfl⟩
  | cons c cs ih =>
    obtain ⟨⟨slash, double, single⟩, later⟩ := List.forall_mem_cons.1 free
    obtain ⟨last, rest⟩ := ih later (some c)
    refine ⟨last, ?_⟩
    rw [passes?]
    simpa [cutsAt, outside, step, slash, double, single] using rest

/-- A splitter passes over what stands in a character literal, a double quote aside. -/
theorem passes?_characterBody {body : Text} (h : CharacterBody body) (other : body ≠ ['"']) (before : Option Char) :
    ∃ last, passes? ',' angle ⟨.character, depth, before⟩ body = some ⟨.character, depth, last⟩ := by
  cases h with
  | @plain c free =>
    refine passes?_inCharacter ?_ before
    exact List.forall_mem_singleton.2 ⟨free.2.1, fun e => other (by rw [e]), free.1⟩
  | @escape mark digits _ hex _ =>
    have plain : ∀ c ∈ digits, c ≠ '\\' ∧ c ≠ '"' ∧ c ≠ '\'' := by
      intro c hc
      have not {d : Char} (no : d.isAlphanum = false) : c ≠ d := by
        rintro rfl
        rw [hex c hc] at no
        cases no
      exact ⟨not (by decide), not (by decide), not (by decide)⟩
    obtain ⟨last, rest⟩ := @passes?_inCharacter angle depth digits plain (some mark)
    refine ⟨last, ?_⟩
    rw [passes?, passes?]
    simpa [cutsAt, outside, step] using rest

end Splitter

theorem onePiece_character {angle : Bool} {depth : Nat} {body : Text} (h : CharacterBody body) (other : body ≠ ['"']) :
    OnePiece angle depth ('\'' :: (body ++ ['\''])) := by
  intro s rest same resting _
  have enter : s.stepOutside angle '\'' = ⟨.character, depth, some '\''⟩ := by
    rw [Splitter.stepOutside, if_neg (by decide), if_pos rfl, same]
  obtain ⟨last, inside⟩ := @Splitter.passes?_characterBody angle depth body h other (some '\'')
  refine ⟨⟨.outside, depth, some '\''⟩, ?_, rfl, resting_outside depth (by decide) _⟩
  rw [Splitter.passes?, if_neg (by simp [Splitter.cutsAt]), resting.step, enter, Splitter.passes?_append, inside,
    Option.bind_some, Splitter.passes?, if_neg (by simp [Splitter.cutsAt])]
  rfl

namespace Rendered

open Lexeme

/-! ## Descriptions and their texts -/

/-- a default: a number, a truth value, `null` or another word, or a literal by what it is written with -/
inductive Default where
  | word (text : Text) (bare : Bare text)
  | regular (body : Text) (quoted : QuotedBody '"' body)
  | verbatim (content : Text)
  | character (body : Text) (written : CharacterBody body)

namespace Default

def text : Default → Text
  | word text _ => text
  | regular body _ => '"' :: (body ++ ['"'])
  | verbatim content => '@' :: '"' :: (doubled content ++ ['"'])
  | character body _ => '\'' :: (body ++ ['\''])

end Default

/-- the character literal of a double quote -/
def quoteLiteral : Text := ['\'', '"', '\'']

structure ListedParameter where
  group : Option Group
  written : Text
  canonical : Text
  type : TypeForm written canonical
  name : Identifier
  default : Option Default

namespace ListedParameter

variable (p : ListedParameter)

/-- the attribute group, with something made of what stands between quotes, and a space behind it -/
def opening (literal : Text → Text) (p : ListedParameter) : Text :=
  match p.group with
  | none => []
  | some g => g.form literal ++ [' ']

def declaration : Text := p.written ++ ' ' :: p.name.text

/-- what stands in front of the default -/
def front (literal : Text → Text) (p : ListedParameter) : Text := p.opening literal ++ p.declaration

def text : Text :=
  p.front id ++ match p.default with
    | none => []
    | some d => ' ' :: '=' :: ' ' :: d.text

/-- the parameter that is described -/
def raw : RawParameter where
  attributeText := match p.group with
    | none => []
    | some g => g.form id
  typeText := p.canonical
  name := p.name.text
  default := p.default.map Default.text

end ListedParameter

/-! ## Defaults -/

namespace Default

variable (d : Default)

theorem ends : (∃ c cs, d.text = c :: cs ∧ blank c = false) ∧ ∀ c ∈ d.text.getLast?, blank c = false := by
  cases d with
  | word text bare =>
    obtain ⟨c, cs, e⟩ := List.exists_cons_of_ne_nil bare.filled
    exact ⟨⟨c, cs, e, not_blank_of_bareChar (bare.chars c (by rw [e]; exact List.mem_cons_self))⟩,
      fun c hc => not_blank_of_bareChar (bare.chars c (List.mem_of_getLast? hc))⟩
  | regular body => exact ⟨⟨'"', _, rfl, by decide⟩, Text.last_concat (by decide) ('"' :: body)⟩
  | verbatim content => exact ⟨⟨'@', _, rfl, by decide⟩, Text.last_concat (by decide) ('@' :: '"' :: doubled content)⟩
  | character body => exact ⟨⟨'\'', _, rfl, by decide⟩, Text.last_concat (by decide) ('\'' :: body)⟩

theorem trim_text : d.text.trim = d.text := by
  obtain ⟨⟨c, cs, e, solid⟩, last⟩ := d.ends
  exact Text.trim_ends (by rw [e]; rintro _ ⟨⟩; exact solid) last

/-- A splitter passes over a default in one piece, unless it is the character literal of a double quote. -/
theorem onePiece (other : d.text ≠ quoteLiteral) (depth : Nat) : OnePiece true depth d.text := by
  cases d with
  | word text bare => exact bare.onePiece true depth
  | regular body quoted =>
    refine onePiece_literal (l := literal ['"'] body ['"']) fun rest after => ?_
    have plain := plainLiteral_regular ['"'] (by decide) quoted after
    simpa [Lexeme.raw] using plain
  | verbatim content =>
    refine onePiece_literal (l := literal ['@', '"'] (doubled content) ['"']) fun rest after => ?_
    have plain := plainLiteral_verbatim ['@', '"'] (by decide) content after
    simpa [Lexeme.raw] using plain
  | character body written => exact onePiece_character written fun e => other (by rw [text, e]; rfl)

end Default

/-! ## Declarations -/

theorem codeMark_of_typeMark {c : Char} (h : typeMark c = true) : codeMark c = true := by
  simp only [typeMark, Bool.or_eq_true, beq_iff_eq] at h
  rcases h with ((((rfl | rfl) | rfl) | rfl) | rfl) | rfl <;> decide

namespace ListedParameter

variable (p : ListedParameter)

theorem codeMark_declaration : ∀ c ∈ p.declaration, codeMark c = true := by
  have type := p.type.forall_mem (fun _ => codeMark_of_bareChar) (fun _ => codeMark_of_typeMark) (by decide)
  have name : ∀ c ∈ p.name.text, codeMark c = true := fun c hc => codeMark_of_bareChar (p.name.bare.chars c hc)
  exact List.forall_mem_append.2 ⟨type, List.forall_mem_cons.2 ⟨by decide, name⟩⟩

theorem equals_declaration : '=' ∉ p.declaration := by
  have type : ∀ c ∈ p.written, c ≠ '=' := p.type.forall_mem (fun _ h => ne_of_bareChar h (by decide))
    (fun c h e => absurd h (by rw [e]; decide)) (by decide)
  have name : ∀ c ∈ p.name.text, c ≠ '=' := fun c hc => p.name.bare.ne_of_mem hc (by decide)
  exact fun equals => List.forall_mem_append.2 ⟨type, List.forall_mem_cons.2 ⟨by decide, name⟩⟩ '=' equals rfl

theorem spaced_declaration (afterBlank : Bool) : Text.spaced afterBlank p.declaration = true := by
  have name : Text.spaced true p.name.text = true := by
    have solid := Text.spaced_solid fun c hc => not_blank_of_bareChar (p.name.bare.chars c hc)
    obtain ⟨c, cs, e, start⟩ := p.name.exists_start
    rw [e, Text.spaced, not_blank_of_wordChar (identifierStart_wordChar start)] at solid ⊢
    exact solid
  rw [declaration, Text.spaced_append (p.type.spaced afterBlank), Text.spaced, if_pos (by decide), name]
  rfl

theorem onePiece_declaration (depth : Nat) : OnePiece true depth p.declaration := by
  have name := (p.name.bare.onePiece true depth).cons (c := ' ') (by decide) (.inr (by decide)) (by decide)
  exact (p.type.onePiece depth).append name (by simp)

theorem exists_start : ∃ c cs, p.declaration = c :: cs ∧ bareChar c = true := by
  obtain ⟨c, cs, e, bare⟩ := p.type.exists_start
  exact ⟨c, cs ++ ' ' :: p.name.text, by rw [declaration, e, List.cons_append], bare⟩

/-- The type and the name of a declaration are told apart. -/
theorem typeAndName?_declaration (behind : Text) (blanks : ∀ c ∈ behind, blank c = true) :
    RawParameter.typeAndName? (p.declaration ++ behind) = some (p.canonical, p.name.text) := by
  obtain ⟨word, rest, e, free⟩ := p.type.exists_word
  have named : Text.words p.name.text = [p.name.text] :=
    Text.words_single p.name.bare.filled fun c hc => not_blank_of_bareChar (p.name.bare.chars c hc)
  have words : Text.words (p.declaration ++ behind) = word :: (rest ++ [p.name.text]) := by
    rw [Text.words_append_blanks blanks, declaration, Text.words_append_blank (by decide), e, named]
    rfl
  have joined : Text.join " " (word :: (rest ++ [p.name.text])) = p.declaration := by
    rw [← words, Text.words_append_blanks blanks]
    exact Text.collapse_spaced (p.spaced_declaration true)
  have kept : RawParameter.modifiers.contains word = false := by
    rwa [List.contains_eq_mem, decide_eq_false_iff_not]
  have space : (p.written ++ [' ']).getLast? ≠ some '@' := by rw [List.getLast?_concat]; decide
  rw [RawParameter.typeAndName?, words, List.dropWhile_cons_of_neg (by rw [kept]; exact Bool.false_ne_true), joined,
    declaration, p.name.trailingIdentifier?_behind]
  simp only [Option.bind_eq_bind, Option.bind_some, if_neg space, p.type.trim_append_space, p.type.isEmpty_eq,
    Bool.false_eq_true, if_false, p.type.tidyType_eq]

/-! ## One parameter -/

theorem masks_front : Masks true (p.front id) (p.front blankOut) := by
  have declared : Masks true p.declaration p.declaration := masks_plain p.codeMark_declaration true
  have space : Masks true [' '] [' '] := masks_plain (Text.forall_of_all (by decide)) true
  unfold front opening
  cases p.group with
  | none => exact declared
  | some g => exact (g.masks_form.append space).append declared

theorem leadingGroups_front (rest : Text) : ∃ stop,
    leadingGroups 0 0 (p.front blankOut ++ rest) = .ok (stop, (p.opening id).length) := by
  obtain ⟨c, cs, e, bare⟩ := p.exists_start
  have head : (p.declaration ++ rest).head? = some c := by rw [e]; rfl
  have other : c ≠ '[' := ne_of_bareChar bare (by decide)
  unfold front opening
  cases p.group with
  | none => exact ⟨0, leadingGroups_other head other 0 0⟩
  | some g =>
    have lead : Text.leadingBlanks (' ' :: (p.declaration ++ rest)) = 1 :=
      Text.leadingBlanks_padded (s := [' ']) (t := p.declaration ++ rest) (Text.forall_of_all (by decide))
        (by rw [head]; rintro _ ⟨⟩; exact not_blank_of_bareChar bare)
    have width : (g.form blankOut).length = (g.inside id).length + 1 + 1 := by
      rw [Group.form, List.length_cons, List.length_append, g.length_inside]
      rfl
    have behind : (g.form blankOut ++ ' ' :: (p.declaration ++ rest)).drop ((g.inside id).length + 1 + 1) =
        ' ' :: (p.declaration ++ rest) := by rw [← width, List.drop_left]
    refine ⟨0 + ((g.inside id).length + 1) + 1, ?_⟩
    have whole : g.form blankOut ++ [' '] ++ p.declaration ++ rest =
        g.form blankOut ++ ' ' :: (p.declaration ++ rest) := by
      simp
    rw [whole, leadingGroups_closed rfl (g.closing?_form _), behind, lead, List.drop_succ_cons, List.drop_zero,
      leadingGroups_other head other]
    simp [Group.form]

theorem leadingBlanks_front (rest : Text) : Text.leadingBlanks (p.front blankOut ++ rest) = 0 := by
  have solid : ∀ c ∈ (p.front blankOut ++ rest).head?, blank c = false := by
    unfold front opening
    cases p.group with
    | none =>
      obtain ⟨c, cs, e, bare⟩ := p.exists_start
      rw [e]
      rintro _ ⟨⟩
      exact not_blank_of_bareChar bare
    | some g => rintro _ ⟨⟩; decide
  exact Text.leadingBlanks_padded (s := []) (by simp) solid

theorem trim_opening : Text.trim (p.opening id) = p.raw.attributeText := by
  unfold opening raw
  cases p.group with
  | none => rfl
  | some g =>
    exact Text.trim_padded (s := []) (t := g.form id) (u := [' ']) (by simp) (Text.forall_of_all (by decide))
      (by rintro _ ⟨⟩; decide) (Text.last_concat (by decide) ('[' :: g.inside id))

/-- The attribute group of a parameter is cut off, whatever stands behind the declaration. -/
theorem ofText?_front {rest code : Text} (aligned : rest.length = code.length)
    (masked : mask true (p.front id ++ rest) = p.front blankOut ++ code) :
    RawParameter.ofText? (p.front id ++ rest) = RawParameter.ofRest? p.raw.attributeText
      ⟨p.declaration ++ rest, p.declaration ++ code, by rw [List.length_append, List.length_append, aligned]⟩ := by
  obtain ⟨stop, groups⟩ := p.leadingGroups_front code
  have width : (p.opening blankOut).length = (p.opening id).length := by
    have := p.masks_front.length_eq
    rw [front, front, List.length_append, List.length_append] at this
    omega
  have cut : (Source.ofText (p.front id ++ rest)).drop (p.opening id).length =
      ⟨p.declaration ++ rest, p.declaration ++ code, by rw [List.length_append, List.length_append, aligned]⟩ := by
    refine Source.ext ?_ ?_
    · rw [Source.raw_drop, Source.raw_ofText, front, List.append_assoc, List.drop_left]
    · rw [Source.code_drop, Source.code_ofText, masked, front, List.append_assoc, ← width, List.drop_left]
  have attributes : Text.trim ((Source.ofText (p.front id ++ rest)).slice 0 (p.opening id).length).raw =
      p.raw.attributeText := by
    rw [Source.raw_slice, Source.raw_ofText, List.drop_zero, Nat.sub_zero, front, List.append_assoc, List.take_left,
      p.trim_opening]
  simp only [RawParameter.ofText?, Source.code_ofText, masked, p.leadingBlanks_front, List.drop_zero, groups, cut,
    attributes]
  rw [RawParameter.ofRest?]
  exact Option.map_eq_bind.symm

/-- A parameter without default is read back. -/
theorem ofText?_plain : RawParameter.ofText? (p.front id) = some { p.raw with default := none } := by
  have masked : mask true (p.front id ++ []) = p.front blankOut ++ [] := by
    rw [List.append_nil, List.append_nil, p.masks_front.mask_eq]
  have whole := @ofText?_front p [] [] rfl masked
  have free := RawParameter.assignmentFrom_free p.equals_declaration 0 none []
  have declared := p.typeAndName?_declaration [] (by simp)
  simp only [List.append_nil] at whole free declared
  rw [whole]
  simp only [RawParameter.ofRest?, free, RawParameter.assignmentFrom, declared]
  rfl

/-- Behind an equals sign stands the default, whatever it is. -/
theorem ofText?_default (x : Text) : RawParameter.ofText? (p.front id ++ ' ' :: '=' :: ' ' :: x) =
    some { p.raw with default := if x.trim.isEmpty then none else some x.trim } := by
  have sign : Masks true [' ', '=', ' '] [' ', '=', ' '] := masks_plain (Text.forall_of_all (by decide)) true
  obtain ⟨lineBlank, lexed⟩ := (p.masks_front.append sign) true x
  generalize (lexFrom lineBlank x).flatMap (Lexeme.masked true) = code at lexed
  have masked : mask true (p.front id ++ ' ' :: '=' :: ' ' :: x) = p.front blankOut ++ ' ' :: '=' :: ' ' :: code := by
    simpa [mask, lex] using lexed
  have aligned : (' ' :: '=' :: ' ' :: x).length = (' ' :: '=' :: ' ' :: code).length := by
    have length := congrArg List.length masked
    rw [mask_length, List.length_append, List.length_append, p.masks_front.length_eq] at length
    exact Nat.add_left_cancel length
  have place : RawParameter.assignmentFrom 0 none (p.declaration ++ ' ' :: '=' :: ' ' :: code) =
      some (p.declaration.length + 1) := by
    rw [RawParameter.assignmentFrom_free p.equals_declaration, Nat.zero_add]
    simp [RawParameter.assignmentFrom]
  have before : (p.declaration ++ ' ' :: '=' :: ' ' :: x).take (p.declaration.length + 1) = p.declaration ++ [' '] := by
    rw [List.take_length_add_append]
    rfl
  have behind : (p.declaration ++ ' ' :: '=' :: ' ' :: x).drop (p.declaration.length + 1 + 1) = ' ' :: x := by
    rw [Nat.add_assoc, List.drop_length_add_append]
    rfl
  rw [p.ofText?_front aligned masked]
  simp only [RawParameter.ofRest?, place, before, behind, trim_space,
    p.typeAndName?_declaration [' '] (Text.forall_of_all (by decide))]
  rfl

/-- **A parameter is read back**, whatever its default. -/
theorem ofText?_text : RawParameter.ofText? p.text = some p.raw := by
  rw [text]
  cases h : p.default with
  | none =>
    rw [List.append_nil, p.ofText?_plain]
    simp only [raw, h]
    rfl
  | some d =>
    have filled : d.text.isEmpty = false := by
      obtain ⟨⟨c, cs, e, -⟩, -⟩ := d.ends
      rw [e]
      rfl
    rw [p.ofText?_default, d.trim_text, filled]
    simp only [raw, h]
    rfl

/-! ## Commas -/

theorem onePiece_front : OnePiece true 0 (p.front id) := by
  unfold front opening
  cases p.group with
  | none => exact p.onePiece_declaration 0
  | some g =>
    have spaced := (p.onePiece_declaration 0).cons (c := ' ') (by decide) (.inr (by decide)) (by decide)
    rw [List.append_assoc]
    exact (g.onePiece true 0).append spaced (by simp)

/-- A splitter passes over a parameter in one piece, unless its default is the character literal of a double quote. -/
theorem onePiece_text (other : p.raw.default ≠ some quoteLiteral) : OnePiece true 0 p.text := by
  unfold text
  cases h : p.default with
  | none =>
    rw [List.append_nil]
    exact p.onePiece_front
  | some d =>
    have piece := d.onePiece (fun e => other (by rw [raw, h, Option.map_some, e])) 0
    have sign : ∀ c ∈ ([' ', '=', ' '] : Text), Splitter.evenMark true c = true ∧ c ≠ '@' :=
      Text.forall_of_all (by decide)
    exact p.onePiece_front.append (piece.plain_append sign (.inr (by decide))) (by simp)

theorem text_of_quote (h : p.raw.default = some quoteLiteral) :
    p.text = p.front id ++ ' ' :: '=' :: ' ' :: quoteLiteral := by
  obtain ⟨d, found, e⟩ := Option.map_eq_some_iff.1 h
  rw [text, found, ← e]

/-- Behind that literal the splitter takes itself to stand in a character literal. -/
theorem passes?_quote (h : p.raw.default = some quoteLiteral) {s : Splitter} (flat : s.depth = 0) {rest : Text}
    (resting : Resting s (p.text ++ rest)) : s.passes? ',' true p.text = some ⟨.character, 0, some '\''⟩ := by
  rw [p.text_of_quote h] at resting ⊢
  rw [List.append_assoc] at resting
  obtain ⟨mid, passed, flat', resting'⟩ := p.onePiece_front s _ flat resting (by simp)
  rw [Splitter.passes?_append, passed, Option.bind_some, resting'.passes?_even (by decide) (by decide), flat']
  rfl

/-- A splitter passes over a parameter that nothing follows. -/
theorem exists_passes? {s : Splitter} (flat : s.depth = 0) (resting : Resting s p.text) :
    ∃ last, s.passes? ',' true p.text = some last := by
  rw [← List.append_nil p.text] at resting
  by_cases quote : p.raw.default = some quoteLiteral
  · exact ⟨_, p.passes?_quote quote flat resting⟩
  · obtain ⟨last, passed, -⟩ := p.onePiece_text quote s [] flat resting (by simp)
    exact ⟨last, passed⟩

theorem exists_head : ∃ c cs, p.text = c :: cs ∧ blank c = false := by
  have front : ∃ c cs, p.front id = c :: cs ∧ blank c = false := by
    unfold front opening
    cases p.group with
    | none =>
      obtain ⟨c, cs, e, bare⟩ := p.exists_start
      exact ⟨c, cs, e, not_blank_of_bareChar bare⟩
    | some g => exact ⟨'[', _, rfl, by decide⟩
  obtain ⟨c, cs, e, solid⟩ := front
  exact ⟨c, _, by rw [text, e, List.cons_append], solid⟩

theorem trim_text : p.text.trim = p.text := by
  obtain ⟨c, cs, head, solid⟩ := p.exists_head
  have last : ∀ c ∈ p.text.getLast?, blank c = false := by
    cases h : p.default with
    | none =>
      obtain ⟨d, ds, e, -⟩ := p.exists_start
      have last := Text.spaced_last (p.spaced_declaration false)
      rw [e] at last
      simpa [text, h, front, e, List.getLast?_cons] using last
    | some d =>
      obtain ⟨⟨x, xs, e, -⟩, last⟩ := d.ends
      rw [e] at last
      simpa [text, h, e, List.getLast?_cons] using last
  exact Text.trim_ends (by rw [head]; rintro _ ⟨⟩; exact solid) last

/-- What the code does not cut off behind that literal becomes part of the default. -/
theorem ofText?_quote (h : p.raw.default = some quoteLiteral) (more : Text) :
    ∃ r, RawParameter.ofText? (p.text ++ ',' :: more).trim = some r ∧ r ≠ p.raw := by
  have seam : p.text ++ ',' :: more = (p.text ++ [',']) ++ more := by simp
  obtain ⟨c, cs, head, solid⟩ := p.exists_head
  obtain ⟨rest, kept⟩ := Text.exists_trim_append (s := p.text ++ [','])
    (by rw [head]; rintro _ ⟨⟩; exact solid) (Text.last_concat (by decide) p.text) more
  obtain ⟨rest', kept'⟩ := Text.exists_trim_append (s := quoteLiteral ++ [','])
    (by rintro _ ⟨⟩; decide) (by rintro _ ⟨⟩; decide) rest
  have whole : p.text ++ [','] ++ rest = p.front id ++ ' ' :: '=' :: ' ' :: (quoteLiteral ++ [','] ++ rest) := by
    rw [p.text_of_quote h]
    simp
  rw [seam, kept, whole, p.ofText?_default, kept']
  refine ⟨_, rfl, fun e => ?_⟩
  have default := congrArg RawParameter.default e
  rw [h] at default
  simp [quoteLiteral] at default

/-- So another parameter is read in place of one with that literal in front of a comma. -/
theorem exists_misread (h : p.raw.default = some quoteLiteral) {s : Splitter} (flat : s.depth = 0) {x : Text}
    (resting : Resting s (p.text ++ ',' :: x)) : ∃ r rest, r ≠ p.raw ∧
      ((segmentsFrom ',' true s (p.text ++ ',' :: x)).map Text.trim).filterMap RawParameter.ofText? = r :: rest := by
  have passed : s.passes? ',' true (p.text ++ [',']) = some ⟨.character, 0, some ','⟩ := by
    rw [Splitter.passes?_append, p.passes?_quote h flat resting]
    rfl
  obtain ⟨first, others, e⟩ :=
    List.exists_cons_of_ne_nil (segmentsFrom_ne_nil ',' true ⟨.character, 0, some ','⟩ x)
  have segments : segmentsFrom ',' true s (p.text ++ ',' :: x) = (p.text ++ ',' :: first) :: others := by
    have whole := Splitter.segmentsFrom_passes passed e
    simpa using whole
  obtain ⟨r, read, other⟩ := p.ofText?_quote h first
  exact ⟨r, _, other, by rw [segments, List.map_cons, List.filterMap_cons_some read]⟩

end ListedParameter

/-! ## Lists -/

/-- The segments of a list are its parameters if and only if no literal of a double quote stands in front of a comma. -/
theorem filterMap_segmentsFrom {ps : List ListedParameter} (filled : ps ≠ []) {s : Splitter} (flat : s.depth = 0)
    (resting : Resting s (Text.join ", " (ps.map ListedParameter.text))) :
    ((segmentsFrom ',' true s (Text.join ", " (ps.map ListedParameter.text))).map Text.trim).filterMap
        RawParameter.ofText? = ps.map ListedParameter.raw ↔
      ∀ p ∈ ps.dropLast, p.raw.default ≠ some quoteLiteral := by
  induction ps generalizing s with
  | nil => exact absurd rfl filled
  | cons p ps ih =>
    cases ps with
    | nil =>
      have alone : Text.join ", " ([p].map ListedParameter.text) = p.text := by simp [Text.join]
      rw [alone] at resting ⊢
      obtain ⟨last, passed⟩ := p.exists_passes? flat resting
      have whole : segmentsFrom ',' true s (p.text ++ []) = [p.text ++ []] := Splitter.segmentsFrom_passes passed rfl
      rw [List.append_nil] at whole
      simp [whole, p.trim_text, p.ofText?_text]
    | cons q ps =>
      have whole : Text.join ", " ((p :: q :: ps).map ListedParameter.text) =
          p.text ++ ',' :: ' ' :: Text.join ", " ((q :: ps).map ListedParameter.text) := Text.join_cons _ _ _ _
      rw [whole] at resting ⊢
      by_cases quote : p.raw.default = some quoteLiteral
      · obtain ⟨r, rest, other, read⟩ := p.exists_misread quote flat resting
        rw [read, List.map_cons]
        exact ⟨fun same => absurd (List.cons.inj same).1 other, fun all => absurd quote (all p (by simp))⟩
      · have rest := ih (List.cons_ne_nil q ps) (s := ⟨.outside, 0, some ' '⟩) rfl (resting_outside 0 (by decide) _)
        rw [map_trim_segmentsFrom_piece (p.onePiece_text quote) flat resting, p.trim_text,
          List.filterMap_cons_some p.ofText?_text, List.map_cons (f := ListedParameter.raw), List.cons_inj_right, rest,
          List.dropLast_cons_cons, List.forall_mem_cons]
        exact (and_iff_right quote).symm

/-- **When a rendered list is read back**: each parameter in order, with the text of its attributes, the canonical
spelling of its type, its name and its default, unless one in front of another has the literal of a double quote. -/
theorem parameterList_text (ps : List ListedParameter) :
    parameterList (Text.join ", " (ps.map ListedParameter.text)) = ps.map ListedParameter.raw ↔
      ∀ p ∈ ps.dropLast, p.raw.default ≠ some quoteLiteral := by
  have empty : RawParameter.ofText? [] = none := by
    simp [RawParameter.ofText?, mask, lex, lexFrom_nil, Text.leadingBlanks, leadingGroups, RawParameter.assignmentFrom,
      RawParameter.typeAndName?, Text.words, Text.join, Text.trailingIdentifier?, Text.takeEnd]
  cases ps with
  | nil => exact ⟨fun _ _ hp => absurd hp List.not_mem_nil, fun _ => parameterList_nil⟩
  | cons p ps =>
    rw [parameterList, filterMap_splitTop empty, segments]
    exact filterMap_segmentsFrom (List.cons_ne_nil p ps) rfl (resting_start _)

end Rendered

end EndpointSurvey
