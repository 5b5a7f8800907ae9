/-
Parameter lists, told lexeme by lexeme: a list is what stands between the first parenthesis of a signature and the one
that closes it, whatever comments and literals hold, and each entry of it is read by itself. Of the literals in an entry,
the default and the name that an attribute gives, the survey keeps what is left when each run of blanks has been made one
space, which is the literal itself just when its words stand one space apart.

Main statements: `parametersText_eq` and `parameterList_items` (each parameter is read off its own item),
`read_defaultsTo` (the default read), `bindingName_namedBy` (the name that an attribute gives), `bindAll_bindOne` (each
parameter is bound from one entry) and `reads_bindAll` (what the parameters of a list take over from its items).
-/
import EndpointSurvey.Binding.ParameterList
import EndpointSurvey.Declaration.Signature
import EndpointSurvey.Proofs.Attribute.NamedLiteral
import EndpointSurvey.Proofs.Binding.Declared
import EndpointSurvey.Proofs.Binding.Holders
import EndpointSurvey.Proofs.Rendered.Literal
import EndpointSurvey.Proofs.Source.Items

namespace EndpointSurvey

/-! ## The list of a signature -/

namespace Lexeme

variable {ls inner rest : List Lexeme}

/-- What follows the bracket that closes does not matter. -/
theorem upTo?_append_right {opener closer : Char} {depth : Nat} (h : upTo? opener closer depth ls = some (inner, rest))
    (ms : List Lexeme) : upTo? opener closer depth (ls ++ ms) = some (inner, rest ++ ms) := by
  induction ls generalizing depth inner with
  | nil => cases h
  | cons l ls ih =>
    rw [upTo?] at h
    rw [List.cons_append, upTo?]
    split at h
    · next stop =>
      cases h
      rw [if_pos stop]
    · next passed =>
      obtain ⟨⟨inner', rest'⟩, found, e⟩ := Option.map_eq_some_iff.1 h
      cases e
      rw [if_neg passed]
      simp only [ih found, Option.map_some]

theorem list?_append (h : list? ls = some inner) (ms : List Lexeme) : list? (ls ++ ms) = some inner := by
  induction ls with
  | nil => cases h
  | cons l ls ih =>
    rw [list?] at h
    rw [List.cons_append, list?]
    split at h
    · obtain ⟨⟨inner', rest'⟩, found, rfl⟩ := Option.map_eq_some_iff.1 h
      rw [if_pos ‹_›, upTo?_append_right found, Option.map_some]
    · rw [if_neg ‹_›, ih h]

/-- The list of a stretch is a stretch of it. -/
theorem infix_of_list? (h : list? ls = some inner) : inner <:+: ls := by
  induction ls with
  | nil => cases h
  | cons l ls ih =>
    rw [list?] at h
    split at h
    · obtain ⟨⟨inner', rest'⟩, found, rfl⟩ := Option.map_eq_some_iff.1 h
      exact ⟨[l], code ')' :: rest', by rw [upTo?_append found]; simp⟩
    · exact (ih h).trans (List.suffix_cons l ls).isInfix

/-- The parentheses found in the code of a stretch are those around its list. -/
theorem exists_list {i : Nat} (plain : ∀ l ∈ ls, l.Plain)
    (closed : closing? '(' ')' ((codeOf ls).drop ((codeOf ls).takeWhile (· != '(')).length) = some i) :
    ∃ front inner rest, ls = front ++ code '(' :: (inner ++ code ')' :: rest) ∧ list? ls = some inner ∧
      ((codeOf ls).takeWhile (· != '(')).length = (text front).length ∧ i = 1 + (text inner).length := by
  induction ls with
  | nil => cases closed
  | cons l ls ih =>
    obtain ⟨here, later⟩ := List.forall_mem_cons.1 plain
    by_cases bracket : l = code '('
    · subst bracket
      have none : (codeOf (code '(' :: ls)).takeWhile (· != '(') = [] := rfl
      rw [none, List.length_nil, List.drop_zero, closing?_code (by decide) (by decide) later] at closed
      obtain ⟨⟨inner, rest⟩, found, e⟩ := Option.map_eq_some_iff.1 closed
      refine ⟨[], inner, rest, by rw [upTo?_append found]; rfl, ?_, by rw [none]; rfl, e.symm⟩
      rw [list?, if_pos rfl, found, Option.map_some]
    · have free : ∀ c ∈ l.masked true, (c != '(') = true := by
        intro c member
        rw [bne_iff_ne]
        rintro rfl
        exact bracket (eq_code_of_mem (by decide) here member)
      have front : ((codeOf (l :: ls)).takeWhile (· != '(')).length =
          l.raw.length + ((codeOf ls).takeWhile (· != '(')).length := by
        rw [codeOf_cons, List.takeWhile_append_of_pos free, List.length_append, masked_length]
      rw [front, codeOf_cons, ← List.drop_drop, ← masked_length true, List.drop_left] at closed
      obtain ⟨pre, inner, rest, whole, found, start, e⟩ := ih later closed
      refine ⟨l :: pre, inner, rest, by rw [whole]; rfl, ?_, ?_, e⟩
      · rw [list?, if_neg bracket, found]
      · rw [front, start, text_cons, List.length_append]

end Lexeme

open Lexeme Attribute

theorem parametersText_of_closing {t : Text} {signature : Signature} (h : signature? t = some signature) :
    let start := ((mask true t).takeWhile (· != '(')).length
    ∃ i, closing? '(' ')' ((mask true t).drop start) = some i ∧
      signature.parametersText = (t.drop (start + 1)).take (i - 1) := by
  obtain ⟨i, closed, h⟩ := Option.bind_eq_some_iff.1 h
  refine ⟨i, closed, ?_⟩
  dsimp only at h
  split at h
  · cases h
  · obtain ⟨⟨before, name⟩, -, h⟩ := Option.bind_eq_some_iff.1 h
    dsimp only at h
    split at h
    · cases h
    · cases h
      rfl

/-- **The parameter list of a signature** is what the parentheses of its stretch hold, settled. -/
theorem parametersText_eq {t : Text} {signature : Signature} (plain : ∀ l ∈ lex t, l.Plain)
    (h : signature? (mask false t).collapse = some signature) :
    ∃ list, list? (lex t) = some list ∧ Stretch list ∧ signature.parametersText = text (settle false list) := by
  have stretch := Stretch.ofText plain
  have whole : (mask false t).collapse = text (bare (lex t)) := (text_bare plain).symm
  have code : mask true (text (bare (lex t))) = codeOf (bare (lex t)) := stretch.bare.mask_eq true
  obtain ⟨i, closed, parameters⟩ := parametersText_of_closing h
  rw [whole, code] at closed parameters
  obtain ⟨front, inner, rest, parts, found, start, rfl⟩ := exists_list stretch.bare.plain closed
  obtain ⟨gap, -, settled⟩ := settle_bare (lex t)
  -- the parentheses of what is settled are those of the stretch itself
  have same := list?_append found gap
  rw [← settled, list?_settle] at same
  obtain ⟨list, listed, rfl⟩ := Option.map_eq_some_iff.1 same
  obtain ⟨before, after, e⟩ := infix_of_list? listed
  have inside : Stretch list := by
    rw [← e] at stretch
    exact stretch.front.back
  refine ⟨list, listed, inside, ?_⟩
  have size : (text front).length + 1 = (text (front ++ [Lexeme.code '('])).length := by simp [Lexeme.raw]
  have cut : text (bare (lex t)) =
      text (front ++ [Lexeme.code '(']) ++ (text (settle false list) ++ text (Lexeme.code ')' :: rest)) := by
    rw [parts, ← text_append, ← text_append]
    simp
  rw [parameters, start, size, cut, List.drop_left, Nat.add_sub_cancel_left, List.take_left]

theorem parameterList_items {list : List Lexeme} (stretch : Stretch list) :
    parameterList (text (settle false list)) =
      (items true 0 list).filterMap fun item => RawParameter.ofText? (shown item).collapse :=
  splitTop_items stretch true (by decide +kernel)

/-! ## Entries with literals -/

/-- an entry that declares a variable of this name, with these lexemes behind the name -/
def Declares (item : List Lexeme) (name : Text) (value : List Lexeme) : Prop :=
  ∃ contents rest, Entry item contents rest ∧ Declaration rest name value

/-- an entry that declares a variable of this name with a literal for its default -/
def DefaultsTo (item : List Lexeme) (name : Text) (opening body closing : Text) : Prop :=
  ∃ before after, (∀ l ∈ before, l.gap = true) ∧ (∀ l ∈ after, l.gap = true) ∧
    Declares item name (code '=' :: (before ++ literal opening body closing :: after))

/-- the source that an item of a group gives -/
def source? (item : List Lexeme) : Option BindingSource :=
  (ofPart? (shown item).collapse).bind fun a => Entries.lookup? a.name Binding.sourceAttributes

/-- an item of a group that gives a source, and in its argument list a regular string for the name -/
structure NamedSource (item : List Lexeme) (body : Text) : Prop where
  parts : ∃ name args before argument after key, Mark item name args ∧
    (Entries.lookup? (shortName name) Binding.sourceAttributes).isSome = true ∧
    items false 0 args = before ++ argument :: after ∧
    (∀ other ∈ before, ∀ pair ∈ namedArgument? other, Text.sameFolded pair.1 "Name" = false) ∧
    NamedLiteral argument key body ∧ Text.sameFolded key "Name" = true

/-- an entry whose first attribute that gives a source names it by a regular string -/
def NamedBy (entry : List Lexeme) (body : Text) : Prop :=
  ∃ contents rest before item after, Entry entry contents rest ∧
    contents.flatMap (items false 0) = before ++ item :: after ∧ (∀ other ∈ before, source? other = none) ∧
    NamedSource item body

/-! ## Names given by attributes -/

section
variable {item : List Lexeme} {body : Text}

/-- The name that an attribute gives is the string it names, settled and taken for what the survey knows. -/
theorem named?_namedSource (stretch : Stretch item) (named : NamedSource item body) :
    ∃ a source, ofPart? (shown item).collapse = some a ∧ Entries.lookup? a.name Binding.sourceAttributes = some source ∧
      a.named? "Name" = some (unescape (Text.settle false body)) := by
  obtain ⟨name, args, before, argument, after, key, mark, known, cut, others, literal, same⟩ := named.parts
  obtain ⟨a, read, short, arguments⟩ := ofPart?_mark stretch mark
  obtain ⟨source, found⟩ := Option.isSome_iff_exists.1 known
  have list : Stretch args := by
    obtain ⟨before, gaps, after, rfl, -⟩ := mark.parts
    exact stretch.back.back.back.tail.front
  have plain : ∀ l ∈ argument, l.Plain := (list.item (by rw [cut]; simp)).plain
  refine ⟨a, source, read, by rw [short, found], ?_⟩
  have lookup : a.named? "Name" = (a.namedArguments.find? fun pair => Text.sameFolded pair.1 "Name").map (·.2) := rfl
  have passed : (before.filterMap namedArgument?).find? (fun pair => Text.sameFolded pair.1 "Name") = none := by
    rw [List.find?_eq_none]
    intro pair member
    obtain ⟨other, inside, found⟩ := List.mem_filterMap.1 member
    rw [others other inside pair found]
    exact Bool.false_ne_true
  have first : ((key, unescape (Text.settle false body)) :: after.filterMap namedArgument?).find?
      (fun pair => Text.sameFolded pair.1 "Name") = some (key, unescape (Text.settle false body)) :=
    List.find?_cons_of_pos same
  rw [lookup, arguments, cut, List.filterMap_append, List.filterMap_cons_some (namedArgument?_literal plain literal),
    List.find?_append, passed, Option.none_or, first, Option.map_some]

theorem sourceAttribute?_marksOf {contents before after : List (List Lexeme)} {a : Attribute} {source : BindingSource}
    (cut : contents.flatMap (items false 0) = before ++ item :: after) (others : ∀ other ∈ before, source? other = none)
    (read : ofPart? (shown item).collapse = some a)
    (known : Entries.lookup? a.name Binding.sourceAttributes = some source) :
    Binding.sourceAttribute? (marksOf contents) = some (a, source) := by
  have passed : (before.filterMap fun item => ofPart? (shown item).collapse).findSome?
      (fun a => (Entries.lookup? a.name Binding.sourceAttributes).map (a, ·)) = none := by
    rw [List.findSome?_eq_none_iff]
    intro a member
    obtain ⟨other, inside, found⟩ := List.mem_filterMap.1 member
    have none := others other inside
    rw [source?, found, Option.bind_some] at none
    rw [none, Option.map_none]
  have first : ((item :: after).filterMap fun item => ofPart? (shown item).collapse).findSome?
      (fun a => (Entries.lookup? a.name Binding.sourceAttributes).map (a, ·)) = some (a, source) := by
    simp only [List.filterMap_cons, read, List.findSome?_cons, known, Option.map_some]
  rw [Binding.sourceAttribute?, marksOf, cut, List.filterMap_append, List.findSome?_append, passed, Option.none_or,
    first]

end

/-! ## Parameters and their entries -/

section
variable {item : List Lexeme} {name opening body closing : Text} {raw : RawParameter} {p : Parameter}

theorem settled_raw (plain : (literal opening body closing).Plain) :
    (literal opening body closing).settled.raw = (opening ++ body ++ closing).collapse := by
  obtain ⟨first, last⟩ := plain.solid_ends rfl
  have whole := settle_raw rfl plain false []
  rw [List.append_nil, Text.settle_nil, List.append_nil, Text.settle_eq_collapse first last] at whole
  exact whole.symm

/-- Collapsing leaves a literal as it is just when its words stand one space apart. -/
theorem collapse_literal_iff (plain : (literal opening body closing).Plain) :
    (opening ++ body ++ closing).collapse = opening ++ body ++ closing ↔
      Text.spaced true (opening ++ body ++ closing) = true := by
  obtain ⟨⟨c, cs, head, -⟩, -⟩ := plain.ends rfl false
  rw [masked_solid rfl] at head
  rw [Text.collapse_eq_self_iff]
  refine or_iff_right fun empty => ?_
  exact List.cons_ne_nil c cs (head.symm.trans empty)

/-- A string whose words stand one space apart settles as it is. -/
theorem settle_body (apart : Text.spaced true ('"' :: body ++ ['"']) = true) : Text.settle false body = body := by
  have plain : (literal ['"'] body ['"']).Plain := .inl ⟨.inl (by decide), rfl⟩
  have same := settled_raw plain
  rw [(collapse_literal_iff plain).2 apart] at same
  exact List.append_cancel_right (List.cons.inj same).2

theorem read_defaultsTo (stretch : Stretch item) (read : RawParameter.ofText? (shown item).collapse = some raw)
    (default : DefaultsTo item name opening body closing) :
    raw.name = name.dropWhile (!identifierStart ·) ∧ raw.default = some (opening ++ body ++ closing).collapse ∧
      (literal opening body closing).Plain := by
  obtain ⟨before, after, blanks, blanks', contents, rest, entry, declared⟩ := default
  obtain ⟨front, groups, rfl, whole⟩ := RawParameter.ofText?_entry stretch entry
  rw [whole] at read
  obtain ⟨named, default⟩ := RawParameter.ofRest?_literal stretch.back declared ⟨blanks, blanks'⟩ read
  have plain : (literal opening body closing).Plain := by
    obtain ⟨type, gaps, rfl, -⟩ := declared.parts
    exact stretch.plain _ (by simp)
  rw [settled_raw plain] at default
  exact ⟨named, default, plain⟩

theorem bindingName_namedBy (stretch : Stretch item) (read : RawParameter.ofText? (shown item).collapse = some raw)
    (named : NamedBy item body) :
    let given := unescape (Text.settle false body)
    Binding.bindingName (Binding.sourceAttribute? (attributesOf raw.attributeText)) raw =
      if given.isEmpty then raw.name else given := by
  obtain ⟨contents, rest, before, mark, after, entry, cut, others, named⟩ := named
  obtain ⟨front, groups, rfl, whole⟩ := RawParameter.ofText?_entry stretch entry
  rw [whole] at read
  have marks : attributesOf raw.attributeText = marksOf contents := by
    rw [RawParameter.attributeText_of_ofRest? read, attributesOf_groups groups stretch.front]
  have inside : Stretch mark := by
    have member : mark ∈ contents.flatMap (items false 0) := by rw [cut]; simp
    obtain ⟨content, listed, member⟩ := List.mem_flatMap.1 member
    obtain ⟨pre, suf, rfl⟩ := groups.infix_of_mem content listed
    exact stretch.front.front.back.item member
  obtain ⟨a, source, part, known, given⟩ := named?_namedSource inside named
  have first := sourceAttribute?_marksOf cut others part known
  simp only [marks, Binding.bindingName, first, Option.bind_some, given]
  cases unescape (Text.settle false body) <;> rfl

/-- What a parameter takes over from its entry. The default is the literal with its words one space apart; the name that
an attribute gives is the string so spaced, with escapes taken for what the survey knows them as. Where no name is left
the parameter goes by its own. -/
structure Reads (item : List Lexeme) (p : Parameter) : Prop where
  plain : ∀ name, Declares item name [] → p.variableName = name.dropWhile (!identifierStart ·) ∧ p.default = none
  literal : ∀ name opening body closing, DefaultsTo item name opening body closing →
    p.variableName = name.dropWhile (!identifierStart ·) ∧ p.default = some (opening ++ body ++ closing).collapse ∧
      (p.default = some (opening ++ body ++ closing) ↔ Text.spaced true (opening ++ body ++ closing) = true)
  named : ∀ body, NamedBy item body →
    let given := unescape (Text.settle false body)
    p.name = if given.isEmpty then p.variableName else given
  decoded : ∀ l : Rendered.Literal, NamedBy item l.body → Text.spaced true ('"' :: l.body ++ ['"']) = true →
    l.Understood → l ≠ [] → p.name = l.value

/-- the entry that an item of a parameter list is read as, unless the framework supplies the parameter -/
def recognized? (item : List Lexeme) : Option RawParameter :=
  (RawParameter.ofText? (shown item).collapse).filter fun raw => !Binding.injected (attributesOf raw.attributeText) raw

theorem reads_of_bindOne (context : Binding.Context) (holders : Binding.Holders) (stretch : Stretch item)
    (read : RawParameter.ofText? (shown item).collapse = some raw) :
    Reads item (Binding.bindOne context holders (attributesOf raw.attributeText) raw) where
  plain := by
    rintro name ⟨contents, rest, entry, declared⟩
    obtain ⟨front, groups, rfl, whole⟩ := RawParameter.ofText?_entry stretch entry
    rw [whole] at read
    exact RawParameter.ofRest?_plain stretch.back declared read
  literal := by
    intro name opening body closing default
    obtain ⟨named, default, plain⟩ := read_defaultsTo stretch read default
    refine ⟨named, default, ?_⟩
    rw [← collapse_literal_iff plain]
    show raw.default = _ ↔ _
    rw [default, Option.some_inj]
  named := fun body named => bindingName_namedBy stretch read named
  decoded := by
    intro l named apart understood filled
    have given := bindingName_namedBy stretch read named
    have value : unescape (Text.settle false l.body) = l.value := by
      rw [settle_body apart, Rendered.Literal.unescape_body, l.reading_eq_value_iff.2 understood]
    obtain ⟨s, rest, rfl⟩ := List.exists_cons_of_ne_nil filled
    rw [value] at given
    exact given

end

namespace Binding

/-- Parameters are bound in turn, each from one entry that the framework does not supply. -/
theorem bindAll_bindOne (context : Context) (holders : Holders) (raws : List RawParameter) :
    List.Forall₂ (fun raw p => ∃ holders, p = bindOne context holders (attributesOf raw.attributeText) raw)
      (raws.filter fun raw => !injected (attributesOf raw.attributeText) raw)
      (bindAll context holders raws).value.parameters := by
  induction raws generalizing holders with
  | nil => exact .nil
  | cons raw rest ih =>
    simp only [bindAll, Traced.value_bind, value_attributes]
    split
    · next supplied =>
      rw [List.filter_cons_of_neg (by rw [supplied]; exact Bool.false_ne_true)]
      exact ih holders
    · next kept =>
      rw [List.filter_cons_of_pos (by simpa using kept)]
      exact .cons ⟨holders, rfl⟩ (ih _)

end Binding

theorem forall₂_of_filterMap {α β γ : Type} {f : α → Option β} {R : β → γ → Prop} {S : α → γ → Prop} {as : List α}
    {cs : List γ} (h : List.Forall₂ R (as.filterMap f) cs) (step : ∀ a ∈ as, ∀ b c, f a = some b → R b c → S a c) :
    List.Forall₂ S (as.filter fun a => (f a).isSome) cs := by
  induction as generalizing cs with
  | nil =>
    cases h
    exact .nil
  | cons a as ih =>
    obtain ⟨here, later⟩ := List.forall_mem_cons.1 step
    cases found : f a with
    | none =>
      rw [List.filterMap_cons_none found] at h
      rw [List.filter_cons_of_neg (by rw [found]; exact Bool.false_ne_true)]
      exact ih h later
    | some b =>
      rw [List.filterMap_cons_some found] at h
      rw [List.filter_cons_of_pos (by rw [found]; rfl)]
      cases h with
      | cons first rest => exact .cons (here b _ found first) (ih rest later)

/-- **The parameters of a list** are read, in order, off those of its items that are entries and are not supplied by the
framework. -/
theorem reads_bindAll (context : Binding.Context) {list : List Lexeme} (stretch : Stretch list) :
    List.Forall₂ Reads ((items true 0 list).filter fun item => (recognized? item).isSome)
      (Binding.bindAll context [] (parameterList (text (settle false list)))).value.parameters := by
  have bound := Binding.bindAll_bindOne context [] (parameterList (text (settle false list)))
  rw [parameterList_items stretch, List.filter_filterMap] at bound
  rw [parameterList_items stretch]
  refine forall₂_of_filterMap bound ?_
  rintro item member raw p found ⟨holders, rfl⟩
  exact reads_of_bindOne context holders (stretch.item member) (Option.filter_eq_some_iff.1 found).1

end EndpointSurvey
