/-
Attribute groups as they are rendered from a description, with blanks between them: each a list of attributes with a
qualified name, and with arguments that are dotted names, integers or strings of any content, some of them named.

Main statement: `attributes_text` (the attributes are read back, and nothing is warned of).
-/
import EndpointSurvey.Attribute.Groups
import EndpointSurvey.Proofs.Attribute.NamedLiteral
import EndpointSurvey.Proofs.Rendered.Basic
import EndpointSurvey.Proofs.Rendered.Identifiers
import EndpointSurvey.Proofs.Source.Seam

namespace EndpointSurvey

namespace Rendered

open Lexeme

/-! ## Descriptions and their texts -/

/-- a value of an argument; the content of a string is what it is the literal of -/
inductive Value where
  | name (first : Identifier) (rest : List Identifier)
  | integer (n : Int)
  | regular (content : Text)
  | verbatim (content : Text)

namespace Value

/-- the value as it is written, with something made of what stands between its quotes -/
def form (literal : Text → Text) : Value → Text
  | name first rest => dottedName (first :: rest)
  | integer n => Text.ofInt n
  | regular content => '"' :: (literal (escaped content) ++ ['"'])
  | verbatim content => '@' :: '"' :: (literal (doubled content) ++ ['"'])

/-- what the value says: of a string its content -/
def meaning : Value → Text
  | name first rest => dottedName (first :: rest)
  | integer n => Text.ofInt n
  | regular content => content
  | verbatim content => content

end Value

inductive Argument where
  | positional (value : Value)
  | named (key : Identifier) (value : Value)

namespace Argument

def form (literal : Text → Text) : Argument → Text
  | positional value => value.form literal
  | named key value => key.text ++ ' ' :: '=' :: ' ' :: value.form literal

def meaning : Argument → Attribute.Argument
  | positional value => .positional value.meaning
  | named key value => .named key.text value.meaning

end Argument

/-- An attribute: the name it goes by, maybe qualified and with the ending of attribute classes, and maybe a list of
arguments. A name that has this ending as it is would lose it. -/
structure Decoration where
  qualifiers : List Identifier
  base : Identifier
  suffixed : Bool
  short : suffixed = false → ¬ (Text.endsWith Attribute.suffix base.text ∧ Attribute.suffix.length < base.text.length)
  arguments : Option (List Argument)

namespace Decoration

variable (a : Decoration)

/-- the last part of the name as it is written -/
def lastName : Text := a.base.text ++ if a.suffixed then Attribute.suffix else []

def fullName : Text := a.qualifiers.flatMap (fun q => q.text ++ ['.']) ++ a.lastName

def form (literal : Text → Text) (a : Decoration) : Text :=
  a.fullName ++ match a.arguments with
    | none => []
    | some list => '(' :: (Text.join ", " (list.map (Argument.form literal)) ++ [')'])

def text : Text := a.form id

/-- the attribute that is described -/
def described : Attribute :=
  let meant := (a.arguments.getD []).map Argument.meaning
  { name := a.base.text
    arguments := meant.filterMap fun
      | .positional value => some value
      | .named .. => none
    namedArguments := meant.filterMap fun
      | .named key value => some (key, value)
      | .positional _ => none
    raw := a.text }

end Decoration

/-- a bracketed group of at least one attribute -/
structure Group where
  first : Decoration
  rest : List Decoration

namespace Group

def decorations (g : Group) : List Decoration := g.first :: g.rest

/-- what stands between the brackets -/
def inside (literal : Text → Text) (g : Group) : Text := Text.join ", " (g.decorations.map (Decoration.form literal))

def form (literal : Text → Text) (g : Group) : Text := '[' :: (g.inside literal ++ [']'])

def attributes (g : Group) : List Attribute := g.decorations.map Decoration.described

end Group

/-- groups with blanks before each of them and behind the last one -/
structure AttributeLists where
  groups : List (Blanks × Group)
  bottom : Blanks

namespace AttributeLists

def form (literal : Text → Text) (l : AttributeLists) : Text :=
  l.groups.flatMap (fun (above, g) => above.text ++ g.form literal) ++ l.bottom.text

def text (l : AttributeLists) : Text := l.form id

/-- the attributes that are described, group by group -/
def attributes (l : AttributeLists) : List Attribute := l.groups.flatMap fun (_, g) => g.attributes

end AttributeLists

/-! ## Values -/

theorem ofNat_bare (n : Nat) : Bare (Text.ofNat n) := by
  refine ⟨Nat.toDigits_ne_nil, fun c hc => bareChar_of_wordChar ?_⟩
  have digit : c.isDigit = true := Text.isDigit_of_mem_ofNat hc
  have low : c.toNat < 128 := Nat.lt_of_le_of_lt (isDigit_bounds digit).2 (by decide)
  exact wordChar_of_isAlphanum low (by simp [Char.isAlphanum, digit])

theorem ofInt_bare : ∀ n : Int, Bare (Text.ofInt n)
  | .ofNat n => ofNat_bare n
  | .negSucc n => ⟨List.cons_ne_nil _ _, List.forall_mem_cons.2 ⟨by decide, (ofNat_bare (n + 1)).chars⟩⟩

/-- What begins like a name or a number is no string literal. -/
theorem stringLiteral?_bare {c : Char} (h : bareChar c = true) (t : Text) : stringLiteral? (c :: t) = none := by
  have mark : stringMark c = false := by
    simp [stringMark, ne_of_bareChar h (d := '@') (by decide), ne_of_bareChar h (d := '$') (by decide)]
  rw [stringLiteral?, List.dropWhile_cons_of_neg (by rw [mark]; exact Bool.false_ne_true)]
  split
  · next e => exact absurd (List.cons.inj e).1 (ne_of_bareChar h (by decide))
  · rfl

namespace Bare

variable {t : Text}

theorem stringLiteral?_eq (h : Bare t) : stringLiteral? t = none := by
  obtain ⟨c, cs, rfl⟩ := List.exists_cons_of_ne_nil h.filled
  exact stringLiteral?_bare (h.chars c List.mem_cons_self) cs

theorem keyAndValue?_eq (h : Bare t) : Attribute.keyAndValue? t = none := by
  rw [Attribute.keyAndValue?]
  split
  · split
    · next mark rest e =>
      have inside : mark ∈ t := by
        have behind : mark ∈ (t.dropWhile wordChar).dropWhile blank := by rw [e]; exact List.mem_cons_self
        exact (List.dropWhile_suffix _).subset ((List.dropWhile_suffix _).subset behind)
      have other : ¬ (mark = '=' ∨ mark = ':') :=
        not_or.2 ⟨h.ne_of_mem inside (by decide), h.ne_of_mem inside (by decide)⟩
      exact if_neg fun found => other found.1
    · rfl
  · rfl

theorem literalValue_eq (h : Bare t) : literalValue t = t := by
  have symbol : symbolName? t = none := by
    rw [symbolName?]
    cases found : Text.after? "nameof" t with
    | none => rfl
    | some rest =>
      rw [Option.bind_eq_bind, Option.bind_some]
      split
      · next inside e =>
        have behind : '(' ∈ rest.dropWhile blank := by rw [e]; exact List.mem_cons_self
        have paren : '(' ∈ t := by
          rw [← after?_append found]
          exact List.mem_append_right _ ((List.dropWhile_suffix _).subset behind)
        exact absurd rfl (h.ne_of_mem paren (by decide))
      · rfl
  simp only [literalValue, h.trim_eq, h.stringLiteral?_eq, symbol, Option.getD_none]

end Bare

namespace Value

/-- a string literal, whose meaning is what it is taken for -/
structure Quoted (v : Value) (marks body : Text) : Prop where
  form (literal : Text → Text) : v.form literal = marks ++ (literal body ++ ['"'])
  plain (rest : Text) : rest.head? ≠ some '"' → PlainLiteral (v.form id ++ rest) (.literal marks body ['"']) rest
  opening : marks = ['"'] ∨ marks = ['@', '"']
  string : ∃ prefixes, stringLiteral? (v.form id) = some (prefixes, body)
  value : literalValue (v.form id) = v.meaning

theorem cases_form (v : Value) :
    (Bare v.meaning ∧ ∀ literal, v.form literal = v.meaning) ∨ ∃ marks body, v.Quoted marks body := by
  cases v with
  | name first rest => exact .inl ⟨dottedName_bare first rest, fun _ => rfl⟩
  | integer n => exact .inl ⟨ofInt_bare n, fun _ => rfl⟩
  | regular content =>
    refine .inr ⟨['"'], escaped content, fun _ => rfl, fun rest after => ?_, .inl rfl, ?_, ?_⟩
    · have plain := plainLiteral_regular ['"'] (by decide) (quotedBody_escaped content) after
      simpa [form] using plain
    · exact ⟨[], stringLiteral?_quoted _⟩
    · exact (literalValue_of_string _).trans (unescape_escaped content)
  | verbatim content =>
    have string : stringLiteral? ('@' :: '"' :: (doubled content ++ ['"'])) = some (['@'], doubled content) := by
      simp [stringLiteral?, stringMark]
    have trimmed : Text.trim ('@' :: '"' :: (doubled content ++ ['"'])) = '@' :: '"' :: (doubled content ++ ['"']) :=
      Text.trim_ends (by rintro c ⟨⟩; decide) (Text.last_concat (by decide) ('@' :: '"' :: doubled content))
    refine .inr ⟨['@', '"'], doubled content, fun _ => rfl, fun rest after => ?_, .inr rfl, ⟨['@'], string⟩, ?_⟩
    · have plain := plainLiteral_verbatim ['@', '"'] (by decide) content after
      simpa [form] using plain
    · have value : literalValue ('@' :: '"' :: (doubled content ++ ['"'])) =
          Text.replace ['"', '"'] ['"'] (doubled content) := by
        simp only [literalValue, trimmed, string]
        rfl
      exact value.trans (replace_doubled content)

variable (v : Value)

theorem exists_head : ∃ c cs, v.form id = c :: cs ∧ blank c = false ∧ c ≠ '=' := by
  rcases v.cases_form with ⟨bare, same⟩ | ⟨marks, body, quoted⟩
  · obtain ⟨c, cs, e⟩ := List.exists_cons_of_ne_nil bare.filled
    have first := bare.chars c (by rw [e]; exact List.mem_cons_self)
    exact ⟨c, cs, (same id).trans e, not_blank_of_bareChar first, ne_of_bareChar first (by decide)⟩
  · rcases quoted.opening with rfl | rfl
    · exact ⟨'"', body ++ ['"'], quoted.form id, by decide⟩
    · exact ⟨'@', '"' :: (body ++ ['"']), quoted.form id, by decide⟩

theorem getLast?_solid : ∀ c ∈ (v.form id).getLast?, blank c = false := by
  rcases v.cases_form with ⟨bare, same⟩ | ⟨marks, body, quoted⟩
  · rw [same]
    exact fun d hd => not_blank_of_bareChar (bare.chars d (List.mem_of_getLast? hd))
  · rw [quoted.form, ← List.append_assoc]
    exact Text.last_concat (by decide) _

/-- A splitter passes over a value in one piece. -/
theorem onePiece (angle : Bool) (depth : Nat) : OnePiece angle depth (v.form id) := by
  rcases v.cases_form with ⟨bare, same⟩ | ⟨marks, body, quoted⟩
  · rw [same]
    exact bare.onePiece angle depth
  · have whole : v.form id = (Lexeme.literal marks body ['"']).raw := by rw [quoted.form, raw, List.append_assoc]; rfl
    rw [whole]
    exact onePiece_literal fun rest after => by
      rw [← whole]
      exact quoted.plain rest after

/-- A value is blanked between its quotes, in front of any other character. -/
theorem masks_form {d : Char} {t c : Text} (other : d ≠ '"') (h : Masks true (d :: t) c) :
    Masks true (v.form id ++ d :: t) (v.form blankOut ++ c) := by
  rcases v.cases_form with ⟨bare, same⟩ | ⟨marks, body, quoted⟩
  · rw [same, same]
    exact (bare.masks true).append h
  · have masked : v.form blankOut = (Lexeme.literal marks body ['"']).masked true := by
      rw [quoted.form, Lexeme.masked, if_pos rfl, List.append_assoc]
    rw [masked]
    exact h.lexeme fun lineBlank rest => (quoted.plain _ (by simpa using other)).special? lineBlank

theorem literalValue_form : literalValue (v.form id) = v.meaning := by
  rcases v.cases_form with ⟨bare, same⟩ | ⟨marks, body, quoted⟩
  · rw [same]
    exact bare.literalValue_eq
  · exact quoted.value

/-- No bracket of the code stands in a value. -/
theorem free_form : ∀ c ∈ v.form blankOut, c ≠ '[' ∧ c ≠ ']' := by
  rcases v.cases_form with ⟨bare, same⟩ | ⟨marks, body, quoted⟩
  · rw [same]
    exact fun c hc => ⟨bare.ne_of_mem hc (by decide), bare.ne_of_mem hc (by decide)⟩
  · have blanks : ∀ c ∈ blankOut body, c ≠ '[' ∧ c ≠ ']' := by
      intro c hc
      rcases blankOut_mem hc with rfl | rfl <;> decide
    have marked : ∀ c ∈ marks, c ≠ '[' ∧ c ≠ ']' := by
      rcases quoted.opening with rfl | rfl <;> exact Text.forall_of_all (by decide)
    rw [quoted.form]
    exact List.forall_mem_append.2 ⟨marked, List.forall_mem_append.2 ⟨blanks, Text.forall_of_all (by decide)⟩⟩

end Value

/-! ## Arguments -/

namespace Argument

variable (a : Argument)

theorem exists_head : ∃ c cs, a.form id = c :: cs ∧ blank c = false := by
  cases a with
  | positional value =>
    obtain ⟨c, cs, e, solid, -⟩ := value.exists_head
    exact ⟨c, cs, e, solid⟩
  | named key value =>
    obtain ⟨c, cs, e, start⟩ := key.exists_start
    refine ⟨c, cs ++ ' ' :: '=' :: ' ' :: value.form id, by rw [form, e, List.cons_append], ?_⟩
    exact not_blank_of_wordChar (identifierStart_wordChar start)

theorem trim_form : (a.form id).trim = a.form id := by
  obtain ⟨c, cs, e, solid⟩ := a.exists_head
  refine Text.trim_ends (by rw [e]; rintro _ ⟨⟩; exact solid) ?_
  cases a with
  | positional value => exact value.getLast?_solid
  | named key value =>
    obtain ⟨v, vs, filled, -⟩ := value.exists_head
    have last := value.getLast?_solid
    rw [filled] at last
    rw [form, filled, List.getLast?_append]
    simpa [List.getLast?_cons_cons, List.getLast?_cons] using last

theorem onePiece (angle : Bool) (depth : Nat) : OnePiece angle depth (a.form id) := by
  cases a with
  | positional value => exact value.onePiece angle depth
  | named key value =>
    have even : ∀ c ∈ ([' ', '=', ' '] : Text), Splitter.evenMark angle c = true ∧ c ≠ '@' := by
      cases angle <;> exact Text.forall_of_all (by decide)
    have signed := (value.onePiece angle depth).plain_append even (.inr (by decide))
    exact (key.bare.onePiece angle depth).append signed (by simp)

theorem masks_form {d : Char} {t c : Text} (other : d ≠ '"') (h : Masks true (d :: t) c) :
    Masks true (a.form id ++ d :: t) (a.form blankOut ++ c) := by
  cases a with
  | positional value => exact value.masks_form other h
  | named key value =>
    have sign : Masks true [' ', '=', ' '] [' ', '=', ' '] := masks_plain (Text.forall_of_all (by decide)) true
    have whole := (key.bare.masks true).append (sign.append (value.masks_form other h))
    simpa [form] using whole

/-- **An argument is read back**, with its key if it has one. -/
theorem ofText_form : Attribute.Argument.ofText (a.form id) = a.meaning := by
  cases a with
  | positional value =>
    have read := value.literalValue_form
    rcases value.cases_form with ⟨bare, same⟩ | ⟨marks, body, quoted⟩
    · rw [form, meaning, Attribute.Argument.ofText, same, bare.stringLiteral?_eq, bare.keyAndValue?_eq,
        bare.literalValue_eq]
    · obtain ⟨prefixes, string⟩ := quoted.string
      rw [form, meaning, Attribute.Argument.ofText, string, read]
  | named key value =>
    obtain ⟨v, vs, e, solid, single⟩ := value.exists_head
    have signed : Attribute.keyAndValue? (key.text ++ ([' '] ++ '=' :: ([' '] ++ value.form id))) =
        some (key.text, value.form id) :=
      Attribute.keyAndValue?_signed key.start key.wordChars (.inl rfl) (.inr rfl) (.inr rfl) (by rw [e]; rfl) solid single
    have string : stringLiteral? (key.text ++ ' ' :: '=' :: ' ' :: value.form id) = none := by
      obtain ⟨k, ks, e, start⟩ := key.exists_start
      rw [e]
      exact stringLiteral?_bare (bareChar_of_wordChar (identifierStart_wordChar start)) _
    rw [form, meaning, Attribute.Argument.ofText, string]
    simp only [List.singleton_append] at signed
    rw [signed]
    simp only [value.literalValue_form]

theorem free_form : ∀ c ∈ a.form blankOut, c ≠ '[' ∧ c ≠ ']' := by
  cases a with
  | positional value => exact value.free_form
  | named key value =>
    have free : ∀ c ∈ key.text, c ≠ '[' ∧ c ≠ ']' := fun c hc =>
      ⟨key.bare.ne_of_mem hc (by decide), key.bare.ne_of_mem hc (by decide)⟩
    have sign : ∀ c ∈ ([' ', '=', ' '] : Text), c ≠ '[' ∧ c ≠ ']' := Text.forall_of_all (by decide)
    have whole := List.forall_mem_append.2 ⟨free, List.forall_mem_append.2 ⟨sign, value.free_form⟩⟩
    simpa [form] using whole

end Argument

/-! ## Attributes -/

namespace Decoration

variable (a : Decoration)

theorem lastName_word : ∀ c ∈ a.lastName, wordChar c = true := by
  refine List.forall_mem_append.2 ⟨a.base.wordChars, ?_⟩
  split
  · exact Text.forall_of_all (by decide)
  · simp

theorem fullName_dotted : ∀ c ∈ a.fullName, dottedChar c = true := by
  have letters : ∀ {c}, wordChar c = true → dottedChar c = true := fun h => by rw [dottedChar, h, Bool.true_or]
  refine List.forall_mem_append.2 ⟨fun c hc => ?_, fun c hc => letters (a.lastName_word c hc)⟩
  obtain ⟨q, -, hc⟩ := List.mem_flatMap.1 hc
  rcases List.mem_append.1 hc with hc | hc
  · exact letters (q.wordChars c hc)
  · obtain rfl := List.mem_singleton.1 hc
    decide

theorem exists_start : ∃ c cs, a.fullName = c :: cs ∧ identifierStart c = true := by
  rw [fullName]
  cases a.qualifiers with
  | nil =>
    obtain ⟨c, cs, e, start⟩ := a.base.exists_start
    exact ⟨c, _, by rw [lastName, e]; rfl, start⟩
  | cons q qs =>
    obtain ⟨c, cs, e, start⟩ := q.exists_start
    exact ⟨c, _, by rw [List.flatMap_cons, e]; rfl, start⟩

theorem entryName : Attribute.EntryName a.fullName := by
  obtain ⟨c, cs, e, start⟩ := a.exists_start
  refine ⟨c, cs, e, .inl start, fun d hd => a.fullName_dotted d ?_⟩
  rw [e]
  exact List.mem_cons_of_mem c hd

theorem fullName_bare : Bare a.fullName := by
  obtain ⟨c, cs, e, -⟩ := a.exists_start
  exact ⟨by rw [e]; exact List.cons_ne_nil c cs, fun d hd => bareChar_of_dottedChar (a.fullName_dotted d hd)⟩

/-- The name that an attribute goes by is the one described. -/
theorem shortName_fullName : Attribute.shortName a.fullName = a.base.text := by
  have unmarked : a.fullName.dropWhile (· == '@') = a.fullName := by
    obtain ⟨c, cs, e, start⟩ := a.exists_start
    rw [e, List.dropWhile_cons_of_neg]
    intro mark
    rw [beq_iff_eq.1 mark] at start
    cases start
  have last : Text.afterLast '.' a.fullName = a.lastName := by
    have ends : ∀ c ∈ (a.qualifiers.flatMap fun q => q.text ++ ['.']).getLast?, (c != '.') = false := by
      rcases List.eq_nil_or_concat a.qualifiers with e | ⟨front, q, e⟩
      · rw [e]
        simp
      · rw [e, List.concat_eq_append, List.flatMap_append, List.flatMap_singleton, ← List.append_assoc,
          List.getLast?_concat]
        rintro _ ⟨⟩
        decide
    rw [Text.afterLast, fullName, Text.takeEnd_append_stop ends, Text.takeEnd_of_all]
    intro c hc
    have word := a.lastName_word c hc
    simp only [bne_iff_ne]
    rintro rfl
    exact absurd word (by decide)
  have short := a.short
  simp only [Attribute.shortName, unmarked, last, lastName]
  cases suffixed : a.suffixed with
  | false =>
    rw [suffixed] at short
    have kept :
        ¬ ((Text.endsWith Attribute.suffix a.base.text && Attribute.suffix.length < a.base.text.length) = true) := by
      simpa using short rfl
    simp only [Bool.false_eq_true, if_false, List.append_nil, if_neg kept]
  | true =>
    have ending : Text.endsWith Attribute.suffix (a.base.text ++ Attribute.suffix) = true := by
      rw [Text.endsWith, List.isSuffixOf_iff_suffix]
      exact List.suffix_append _ _
    have filled : a.base.text ≠ [] := a.base.bare.filled
    simp [ending, filled]

/-- the arguments as they are written -/
def list (literal : Text → Text) : Text := Text.join ", " ((a.arguments.getD []).map (Argument.form literal))

theorem form_cases : (∀ literal, a.form literal = a.fullName) ∧ a.arguments = none ∨
    ∀ literal, a.form literal = a.fullName ++ '(' :: (a.list literal ++ [')']) := by
  unfold form list
  cases a.arguments with
  | none => exact .inl ⟨fun _ => List.append_nil _, rfl⟩
  | some l => exact .inr fun _ => rfl

theorem exists_head : ∃ c cs, a.form id = c :: cs ∧ blank c = false := by
  obtain ⟨c, cs, e, start⟩ := a.exists_start
  rw [form, e]
  exact ⟨c, _, rfl, not_blank_of_wordChar (identifierStart_wordChar start)⟩

theorem trim_form : (a.form id).trim = a.form id := by
  obtain ⟨c, cs, e, solid⟩ := a.exists_head
  rcases a.form_cases with ⟨same, -⟩ | same
  · rw [same]
    exact a.fullName_bare.trim_eq
  · refine Text.trim_ends (by rw [e]; rintro _ ⟨⟩; exact solid) ?_
    rw [same, ← List.cons_append, ← List.append_assoc]
    exact Text.last_concat (by decide) _

theorem onePiece (angle : Bool) (depth : Nat) : OnePiece angle depth (a.form id) := by
  have name := a.fullName_bare.onePiece angle depth
  rcases a.form_cases with ⟨same, -⟩ | same
  · rw [same]
    exact name
  · have inside : OnePiece angle (depth + 1) (a.list id) := onePiece_join (evenMark_comma angle) (by simp) (by
      rw [List.forall_mem_map]
      exact fun x _ => x.onePiece angle (depth + 1))
    rw [same]
    exact name.append (inside.group rfl rfl (by decide) (by cases angle <;> rfl)) (by simp)

theorem masks_form : Masks true (a.form id) (a.form blankOut) := by
  have name := a.fullName_bare.masks true
  rcases a.form_cases with ⟨same, -⟩ | same
  · rw [same, same]
    exact name
  · have opened : Masks true ['('] ['('] := masks_plain (Text.forall_of_all (by decide)) true
    have closed : Masks true [')'] [')'] := masks_plain (Text.forall_of_all (by decide)) true
    rw [same, same]
    exact name.append (opened.append (masks_join (fun x _ _ _ _ => x.masks_form) (by decide) closed))

theorem free_form : ∀ c ∈ a.form blankOut, c ≠ '[' ∧ c ≠ ']' := by
  have name : ∀ c ∈ a.fullName, c ≠ '[' ∧ c ≠ ']' := fun c hc =>
    ⟨a.fullName_bare.ne_of_mem hc (by decide), a.fullName_bare.ne_of_mem hc (by decide)⟩
  rcases a.form_cases with ⟨same, -⟩ | same
  · rw [same]
    exact name
  · have inside : ∀ c ∈ a.list blankOut, c ≠ '[' ∧ c ≠ ']' := Text.forall_mem_join (Text.forall_of_all (by decide)) (by
      rw [List.forall_mem_map]
      exact fun x _ => x.free_form)
    rw [same]
    refine List.forall_mem_append.2 ⟨name, List.forall_mem_cons.2 ⟨by decide, ?_⟩⟩
    exact List.forall_mem_append.2 ⟨inside, Text.forall_of_all (by decide)⟩

theorem afterTarget?_form : Attribute.afterTarget? (a.form id) = none := by
  rcases a.form_cases with ⟨same, -⟩ | same
  · have whole := a.entryName.afterTarget?_eq (t := []) (by simp) (by simp)
    rw [List.append_nil] at whole
    rw [same, whole]
  · rw [same]
    exact a.entryName.afterTarget?_eq (by rintro _ ⟨⟩; decide) (by rintro ⟨⟩)

theorem nameAndArguments?_form : Attribute.nameAndArguments? (a.form id) = some (a.fullName, a.list id) := by
  rcases a.form_cases with ⟨same, none⟩ | same
  · have dotted := a.fullName_dotted
    obtain ⟨c, cs, e, start⟩ := a.exists_start
    rw [e] at dotted
    have inner : ∀ d ∈ cs, dottedChar d = true := fun d hd => dotted d (List.mem_cons_of_mem c hd)
    rw [same, list, none, e]
    simp only [Attribute.nameAndArguments?, start, Bool.true_or, if_true, List.takeWhile_eq_self_iff.2 inner,
      List.dropWhile_eq_nil_iff.2 inner, List.dropWhile_nil]
    rfl
  · rw [same]
    exact a.entryName.nameAndArguments?_eq (.inl rfl) (a.list id)

/-- The arguments are read one by one. -/
theorem arguments_list :
    (if (a.list id).all blank then [] else (splitTop ',' false (a.list id)).map Attribute.Argument.ofText) =
      (a.arguments.getD []).map Argument.meaning := by
  rw [list]
  generalize a.arguments.getD [] = arguments
  cases arguments with
  | nil => rfl
  | cons x xs =>
    have pieces : ∀ t ∈ (x :: xs).map (Argument.form id), OnePiece false 0 t ∧ t.trim = t := by
      rw [List.forall_mem_map]
      exact fun y _ => ⟨y.onePiece false 0, y.trim_form⟩
    have filled : ∀ t ∈ (x :: xs).map (Argument.form id), t ≠ [] := by
      rw [List.forall_mem_map]
      intro y _
      obtain ⟨c, cs, e, -⟩ := y.exists_head
      rw [e]
      exact List.cons_ne_nil c cs
    have written : (Text.join ", " ((x :: xs).map (Argument.form id))).all blank = false := by
      obtain ⟨c, cs, e, solid⟩ := x.exists_head
      cases xs with
      | nil => simp [Text.join, e, solid]
      | cons y ys =>
        rw [List.map_cons, List.map_cons, Text.join_cons, e, List.cons_append, List.all_cons, solid, Bool.false_and]
    rw [written, if_neg Bool.false_ne_true, splitTop_join (by simp) pieces filled, List.map_map]
    exact List.map_congr_left fun y _ => y.ofText_form

/-- **An attribute is read back.** -/
theorem ofEntry?_form : Attribute.ofEntry? (a.form id) = some a.described := by
  rw [Attribute.ofEntry?, nameAndArguments?_form, Option.map_some]
  simp only [a.arguments_list, a.shortName_fullName]
  rfl

end Decoration

/-! ## Groups -/

namespace Group

variable (g : Group)

theorem forms_ne_nil (literal : Text → Text) : g.decorations.map (Decoration.form literal) ≠ [] := by simp [decorations]

theorem masks_form : Masks true (g.form id) (g.form blankOut) := by
  have opened : Masks true ['['] ['['] := masks_plain (Text.forall_of_all (by decide)) true
  have closed : Masks true [']'] [']'] := masks_plain (Text.forall_of_all (by decide)) true
  exact opened.append (masks_join (fun a _ _ _ _ _ h => a.masks_form.append h) (by decide) closed)

/-- A splitter passes over a group in one piece. -/
theorem onePiece (angle : Bool) (depth : Nat) : OnePiece angle depth (g.form id) := by
  have inside : OnePiece angle (depth + 1) (g.inside id) := onePiece_join (evenMark_comma angle) (by simp) (by
    rw [List.forall_mem_map]
    exact fun a _ => a.onePiece angle (depth + 1))
  exact inside.group rfl rfl (by decide) (by cases angle <;> rfl)

theorem length_inside : (g.inside blankOut).length = (g.inside id).length := by
  have := g.masks_form.length_eq
  simp only [form, List.length_cons, List.length_append, List.length_nil] at this
  omega

/-- The code of a group has no brackets but its own. -/
theorem closing?_form (rest : Text) :
    closing? '[' ']' (g.form blankOut ++ rest) = some ((g.inside id).length + 1) := by
  have free : ∀ c ∈ g.inside blankOut, c ≠ '[' ∧ c ≠ ']' := Text.forall_mem_join (Text.forall_of_all (by decide)) (by
    rw [List.forall_mem_map]
    exact fun a _ => a.free_form)
  rw [form, List.cons_append, List.append_assoc]
  exact (closing?_eq_some_iff (by decide)).2
    ⟨g.inside blankOut, rest, rfl, by rw [g.length_inside], nesting_of_free free 0⟩

/-- **A group is read back**, and nothing is warned of. -/
theorem readGroup_inside (location : Option Location) :
    Attribute.readGroup location (g.inside id) = pure g.attributes := by
  have pieces : ∀ t ∈ g.decorations.map (Decoration.form id), OnePiece false 0 t ∧ t.trim = t := by
    rw [List.forall_mem_map]
    exact fun a _ => ⟨a.onePiece false 0, a.trim_form⟩
  have filled : ∀ t ∈ g.decorations.map (Decoration.form id), t ≠ [] := by
    rw [List.forall_mem_map]
    intro a _
    obtain ⟨c, cs, e, -⟩ := a.exists_head
    rw [e]
    exact List.cons_ne_nil c cs
  rw [Attribute.readGroup, inside, splitTop_join (g.forms_ne_nil id) pieces filled]
  refine Traced.filterMapList_pure fun a _ => ?_
  have written : (a.form id).isEmpty = false := by
    obtain ⟨c, cs, e, -⟩ := a.exists_head
    rw [e]
    rfl
  simp only [a.afterTarget?_form, Option.getD_none, written, Bool.false_eq_true, if_false, a.ofEntry?_form]

end Group

/-! ## Lists of groups -/

theorem masks_blanks (b : Blanks) : Masks true b.text b.text :=
  masks_plain (fun c hc => codeMark_of_blank (List.all_eq_true.1 b.blank c hc)) true

end Rendered

/-- Texts that are blanked on their own make up a source of their sources. -/
theorem ofText_append {t u code code' : Text} (ht : Masks true t code) (hu : Masks true u code') :
    Source.ofText (t ++ u) = Source.ofText t ++ Source.ofText u := by
  refine Source.ext rfl ?_
  rw [Source.code_append, Source.code_ofText, Source.code_ofText, Source.code_ofText, (ht.append hu).mask_eq, ht.mask_eq,
    hu.mask_eq]

namespace Attribute

theorem readGroups_closed {s : Source} {i : Nat} (location : Option Location) (head : s.code.head? = some '[')
    (found : closing? '[' ']' s.code = some i) : readGroups location s =
      readGroup location (s.slice 1 i).raw >>= fun here =>
        readGroups location (s.drop (i + 1)) >>= fun rest => pure (here ++ rest) := by
  obtain ⟨cs, e⟩ := List.head?_eq_some_iff.1 head
  rw [e] at found
  rw [readGroups]
  split <;> simp_all

theorem readGroups_other {s : Source} {c : Char} (location : Option Location) (head : s.code.head? = some c)
    (other : c ≠ '[') : readGroups location s = readGroups location (s.drop 1) := by
  obtain ⟨cs, e⟩ := List.head?_eq_some_iff.1 head
  conv => lhs; rw [readGroups]
  split <;> simp_all

/-- What has no bracket in front of groups is passed over. -/
theorem readGroups_free (location : Option Location) {s : Source} (free : '[' ∉ s.code) (t : Source) :
    readGroups location (s ++ t) = readGroups location t := by
  generalize width : s.length = n
  induction n generalizing s with
  | zero =>
    have nothing : s ++ t = t := by
      have code : s.code = [] := List.eq_nil_of_length_eq_zero width
      have raw : s.raw = [] := List.eq_nil_of_length_eq_zero (s.aligned.trans width)
      exact Source.ext (by rw [Source.raw_append, raw, List.nil_append])
        (by rw [Source.code_append, code, List.nil_append])
    rw [nothing]
  | succ n ih =>
    obtain ⟨c, cs, e⟩ : ∃ c cs, s.code = c :: cs := List.exists_cons_of_length_eq_add_one width
    have other : c ≠ '[' := by
      rintro rfl
      exact free (by rw [e]; exact List.mem_cons_self)
    rw [readGroups_other location (c := c) (by rw [Source.code_append, e]; rfl) other,
      Source.drop_append_left (by omega)]
    refine ih (fun later => free ?_) (by rw [Source.length_drop, width, Nat.add_sub_cancel])
    rw [Source.code_drop] at later
    exact List.mem_of_mem_drop later

end Attribute

namespace Rendered

open Lexeme

/-- A group in front of others is read on its own. -/
theorem Group.readGroups_append (location : Option Location) (g : Group) (t : Source) :
    Attribute.readGroups location (Source.ofText (g.form id) ++ t) =
      Attribute.readGroups location t >>= fun rest => pure (g.attributes ++ rest) := by
  have code : (Source.ofText (g.form id)).code = g.form blankOut := g.masks_form.mask_eq
  have width : (Source.ofText (g.form id)).length = (g.inside id).length + 1 + 1 := by
    rw [Source.length, code, form, List.length_cons, List.length_append, g.length_inside]
    rfl
  have found := g.closing?_form t.code
  rw [← code, ← Source.code_append] at found
  have head : (Source.ofText (g.form id) ++ t).code.head? = some '[' := by rw [Source.code_append, code]; rfl
  have inner : ((Source.ofText (g.form id) ++ t).slice 1 ((g.inside id).length + 1)).raw = g.inside id := by
    rw [Source.slice_append_left (by omega), Source.raw_slice, Source.raw_ofText, form, List.drop_succ_cons,
      List.drop_zero, Nat.add_sub_cancel, List.take_left]
  have after : (Source.ofText (g.form id) ++ t).drop ((g.inside id).length + 1 + 1) = t := by
    rw [← width, ← Nat.add_zero (Source.length _), Source.drop_append, Source.drop_zero]
  rw [Attribute.readGroups_closed location head found, inner, after, g.readGroup_inside]
  rfl

namespace AttributeLists

theorem masks_form (l : AttributeLists) : Masks true (l.form id) (l.form blankOut) :=
  (masks_flatMap fun (above, g) _ => (masks_blanks above).append g.masks_form).append (masks_blanks l.bottom)

/-- **Rendered attributes are read back**: by the names they go by, with the contents of their arguments, in order; and
nothing is warned of. -/
theorem attributes_text (location : Option Location) (l : AttributeLists) :
    EndpointSurvey.attributes location l.text = pure l.attributes := by
  have bottom : Attribute.readGroups location (Source.ofText l.bottom.text) = pure [] := by
    have free : '[' ∉ (Source.ofText l.bottom.text).code := by
      rw [Source.code_ofText, (masks_blanks l.bottom).mask_eq]
      exact fun hc => absurd (List.all_eq_true.1 l.bottom.blank _ hc) (by decide)
    exact Attribute.readGroups_no_bracket location _ free
  obtain ⟨groups, below⟩ := l
  rw [EndpointSurvey.attributes, text]
  induction groups with
  | nil => exact bottom
  | cons x groups ih =>
    obtain ⟨above, g⟩ := x
    have whole : form id ⟨(above, g) :: groups, below⟩ = above.text ++ (g.form id ++ form id ⟨groups, below⟩) := by
      simp [form]
    have rest := masks_form ⟨groups, below⟩
    have free : '[' ∉ (Source.ofText above.text).code := by
      rw [Source.code_ofText, (masks_blanks above).mask_eq]
      exact fun hc => absurd (List.all_eq_true.1 above.blank _ hc) (by decide)
    rw [whole, ofText_append (masks_blanks above) (g.masks_form.append rest), ofText_append g.masks_form rest,
      Attribute.readGroups_free location free, g.readGroups_append, ih bottom]
    rfl

end AttributeLists

end Rendered

end EndpointSurvey
