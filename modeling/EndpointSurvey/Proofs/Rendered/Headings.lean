/-
The headings of a rendered document. No keyword of a declaration stands in it but those of its controllers, so that the
scan for headings passes over everything else and stops at each controller once.

Main statements: `headingsFrom_without`, `declaration?_kind` and `headings_code`.
-/
import EndpointSurvey.Proofs.Declaration.Scanning
import EndpointSurvey.Proofs.Rendered.Members
import EndpointSurvey.Proofs.Source.Lookahead

namespace EndpointSurvey

open Rendered (declaringWords)

/-! ## Scanning for headings -/

theorem keyword?_none {word t : Text} (letters : ∀ c ∈ word, wordChar c = true) (other : t.takeWhile wordChar ≠ word) :
    keyword? word t = none := by
  cases found : Text.after? word t with
  | none => simp [keyword?, found]
  | some rest =>
    suffices rest.head?.any blank = false by simp [keyword?, found, this]
    by_contra blankNext
    rw [Bool.not_eq_false, Option.any_eq_true] at blankNext
    obtain ⟨c, head, space⟩ := blankNext
    obtain ⟨cs, rfl⟩ := List.head?_eq_some_iff.1 head
    apply other
    rw [← Lexeme.after?_append found, Text.takeWhile_append_stop (not_wordChar_of_blank space),
      List.takeWhile_eq_self_iff.2 letters]

/-- A text whose first run of word characters is no keyword starts no declaration. -/
theorem declaration?_none {t : Text} (other : t.takeWhile wordChar ∉ declaringWords) : declaration? t = none := by
  have first : ∀ entry ∈ declarationKeywords, ∃ word words, entry.1 = word :: words ∧ word ∈ declaringWords := by
    simp [declarationKeywords, declaringWords]
  have letters : ∀ word ∈ declaringWords, word.all wordChar = true := by decide
  rw [declaration?, List.findSome?_eq_none_iff]
  rintro ⟨words, kind⟩ listed
  obtain ⟨word, rest, rfl, member⟩ := first _ listed
  have none : keyword? word t = none :=
    keyword?_none (List.all_eq_true.1 (letters word member)) fun e => other (e ▸ member)
  simp [List.foldlM_cons, none]

/-- A stretch up to a mark is passed over if no keyword is among its words, those of a word begun before it aside. -/
theorem headingsFrom_stretch {s : Text} {m : Char} (mark : wordChar m = false) {before : Option Char}
    (h : Text.Without declaringWords (if before.any wordChar then s.dropWhile wordChar else s)) (offset : Nat)
    (rest : Text) : headingsFrom offset before (s ++ m :: rest) = headingsFrom (offset + s.length + 1) m rest := by
  induction s generalizing before offset with
  | nil =>
    exact headingsFrom_none fun _ => declaration?_mark mark rest
  | cons c cs ih =>
    have shift : offset + (c :: cs).length + 1 = offset + 1 + cs.length + 1 := by rw [List.length_cons]; omega
    by_cases word : wordChar c = true
    · by_cases begun : before.any wordChar = true
      · rw [if_pos begun, List.dropWhile_cons_of_pos word] at h
        have inside : Text.wordEdge before c = false := by simp [Text.wordEdge, begun, word]
        rw [List.cons_append, headingsFrom_none (by simp [inside]), shift]
        exact ih (by rw [Option.any_some, if_pos word]; exact h) (offset + 1)
      · rw [if_neg begun, Text.Without, Text.runWords_cons word] at h
        obtain ⟨first, others⟩ := List.forall_mem_cons.1 h
        have none : declaration? (c :: (cs ++ m :: rest)) = none :=
          declaration?_none (by rwa [List.takeWhile_cons_of_pos word, Text.takeWhile_append_stop mark])
        rw [List.cons_append, headingsFrom_none fun _ => none, shift]
        exact ih (by rw [Option.any_some, if_pos word]; exact others) (offset + 1)
    · have off : wordChar c = false := by simpa using word
      have plain : Text.Without declaringWords (c :: cs) := by
        split at h
        · rwa [List.dropWhile_cons_of_neg word] at h
        · exact h
      rw [Text.Without, Text.runWords_cons_mark off] at plain
      rw [List.cons_append, headingsFrom_none fun _ => declaration?_mark off _, shift]
      exact ih (by rw [Option.any_some, if_neg word]; exact plain) (offset + 1)

/-- **A stretch without keywords that ends in a mark is passed over**, whatever stands before it. -/
theorem headingsFrom_without {s : Text} {m : Char} (last : s.getLast? = some m) (mark : wordChar m = false)
    (h : Text.Without declaringWords s) (offset : Nat) (before : Option Char) (rest : Text) :
    headingsFrom offset before (s ++ rest) = headingsFrom (offset + s.length) m rest := by
  obtain ⟨front, rfl⟩ := List.getLast?_eq_some_iff.1 last
  have inner : Text.Without declaringWords front := by
    rw [Text.Without, Text.runWords_append_mark mark, Text.runWords_nil, List.append_nil] at h
    exact h
  rw [List.append_assoc, List.length_append, List.length_singleton, ← Nat.add_assoc]
  refine headingsFrom_stretch mark ?_ offset rest
  split
  · exact inner.dropWhile
  · exact inner

/-! ## The heading of a declaration -/

theorem keyword?_self {word t : Text} (visible : ∀ c ∈ t.head?, blank c = false) :
    keyword? word (word ++ ' ' :: t) = some t := by
  rw [keyword?, Lexeme.after?_self]
  have behind : ([' '] ++ t).dropWhile blank = t := Text.dropWhile_padded (by decide) visible
  exact congrArg some behind

theorem keyword?_other {word keyword t : Text} (letters : word.all wordChar = true) (spelled : keyword.all wordChar = true)
    (other : keyword ≠ word) : keyword? word (keyword ++ ' ' :: t) = none := by
  refine keyword?_none (List.all_eq_true.1 letters) ?_
  rwa [Text.takeWhile_append_stop (by decide), List.takeWhile_eq_self_iff.2 (List.all_eq_true.1 spelled)]

/-- A keyword and a space head a declaration of the name behind them, where no further keyword of a record follows. -/
theorem declaration?_spaced {kind : DeclarationKind} {t name rest : Text} (visible : ∀ c ∈ t.head?, blank c = false)
    (named : name? t = some (name, rest))
    (further : kind = .recordType → keyword? "class" t = none ∧ keyword? "struct" t = none) :
    declaration? (kind.name ++ ' ' :: t) = some (some kind, name, rest) := by
  have spelled : kind.name.all wordChar = true := by cases kind <;> decide
  have own : keyword? kind.name (kind.name ++ ' ' :: t) = some t := keyword?_self visible
  have other (word : Text) (letters : word.all wordChar = true) (h : kind.name ≠ word) :
      keyword? word (kind.name ++ ' ' :: t) = none := keyword?_other letters spelled h
  rw [declaration?, declarationKeywords]
  cases kind with
  | recordType =>
    obtain ⟨noClass, noStruct⟩ := further rfl
    have record : keyword? "record" (DeclarationKind.recordType.name ++ ' ' :: t) = some t := own
    simp only [List.findSome?_cons, List.foldlM_cons, List.foldlM_nil, Option.bind_eq_bind, Option.bind_some,
      Option.bind_none, Option.pure_def, record, noClass, noStruct, other "class" (by decide) (by decide),
      other "struct" (by decide) (by decide), named]
  | classType =>
    have class_ : keyword? "class" (DeclarationKind.classType.name ++ ' ' :: t) = some t := own
    simp only [List.findSome?_cons, List.foldlM_cons, List.foldlM_nil, Option.bind_eq_bind, Option.bind_some,
      Option.bind_none, Option.pure_def, other "record" (by decide) (by decide), class_, named]
  | structType =>
    have struct : keyword? "struct" (DeclarationKind.structType.name ++ ' ' :: t) = some t := own
    simp only [List.findSome?_cons, List.foldlM_cons, List.foldlM_nil, Option.bind_eq_bind, Option.bind_some,
      Option.bind_none, Option.pure_def, other "record" (by decide) (by decide), other "class" (by decide) (by decide),
      struct, named]
  | enumType =>
    have enum : keyword? "enum" (DeclarationKind.enumType.name ++ ' ' :: t) = some t := own
    simp only [List.findSome?_cons, List.foldlM_cons, List.foldlM_nil, Option.bind_eq_bind, Option.bind_some,
      Option.bind_none, Option.pure_def, other "record" (by decide) (by decide), other "class" (by decide) (by decide),
      other "struct" (by decide) (by decide), enum, named]

/-- **A keyword, a space and a name head a declaration**; a record is no record class or record struct by its name. -/
theorem declaration?_kind {kind : DeclarationKind} {name rest : Text} {m : Char}
    (start : ∃ c cs, name = c :: cs ∧ identifierStart c = true) (word : ∀ c ∈ name, wordChar c = true)
    (mark : wordChar m = false) (free : kind = .recordType → name ∉ nonTypeNames) :
    declaration? (kind.name ++ ' ' :: (name ++ m :: rest)) = some (some kind, name, m :: rest) := by
  obtain ⟨c, cs, rfl, begins⟩ := start
  have taken : (c :: cs ++ m :: rest).takeWhile wordChar = c :: cs := by
    rw [Text.takeWhile_append_stop mark, List.takeWhile_eq_self_iff.2 word]
  have named : name? (c :: cs ++ m :: rest) = some (c :: cs, m :: rest) := by
    rw [name?, if_pos (by simpa using begins), taken, Text.dropWhile_append_stop mark, List.dropWhile_eq_nil_iff.2 word]
    rfl
  refine declaration?_spaced ?_ named fun record => ⟨?_, ?_⟩
  · rintro _ ⟨⟩
    exact not_blank_of_wordChar (word c List.mem_cons_self)
  · refine keyword?_none (Text.forall_of_all (by decide)) fun same => free record ?_
    rw [← taken, same]
    decide
  · refine keyword?_none (Text.forall_of_all (by decide)) fun same => free record ?_
    rw [← taken, same]
    decide

theorem declaration?_class {name rest : Text} {m : Char} (start : ∃ c cs, name = c :: cs ∧ identifierStart c = true)
    (word : ∀ c ∈ name, wordChar c = true) (mark : wordChar m = false) :
    declaration? ("class " ++ (name ++ m :: rest)) = some (some .classType, name, m :: rest) :=
  @declaration?_kind .classType _ _ _ start word mark (by rintro ⟨⟩)

namespace Rendered

theorem Blanks.marks (g : Blanks) : ∀ c ∈ g.text, wordChar c = false := fun c hc => not_wordChar_of_blank (g.all c hc)

theorem without_attributeForm {name : Text} {words : List Text} (mark : MarkName name) (other : name ∉ words)
    (count : Nat) : Text.Without words (attributeForm name (List.replicate count ' ')) := by
  obtain ⟨c, cs, e, -⟩ := mark.start
  have named : Text.Without words name :=
    Text.Without.single (by rw [e]; exact List.cons_ne_nil c cs)
      (fun d hd => wordChar_of_nameChar (mark.word d hd)) other
  refine (named.append_mark (by decide) (Text.Without.of_marks fun d hd => ?_)).cons_mark (by decide)
  simp only [List.mem_cons, List.mem_append, List.mem_replicate, List.not_mem_nil, or_false] at hd
  rcases hd with rfl | ⟨-, rfl⟩ | rfl | rfl | rfl <;> decide

theorem getLast?_attributeForm (name literal : Text) : (attributeForm name literal).getLast? = some ']' := by
  rw [attributeForm_eq, ← List.cons_append, List.getLast?_concat]

theorem declaringWords_subset : declaringWords ⊆ keptWords := by
  have each : ∀ word ∈ declaringWords, word ∈ keptWords := by decide
  exact fun word member => each word member

/-- No type is declared in an action. -/
theorem Action.without_code (a : Action) : Text.Without declaringWords a.code := by
  have mark : Text.Without declaringWords (attributeForm a.verb.attributeName (List.replicate a.route.body.length ' ')) :=
    without_attributeForm (markName_verb a.verb) (by cases a.verb <;> decide) _
  have signature : Text.Without declaringWords (a.below.text ++ (a.signature ++ a.gap.text)) :=
    Text.Without.marks_append a.below.marks
      ((a.without_signature declaringWords_subset (by decide)).append_marks a.gap.marks)
  have body : Text.Without declaringWords (mask true a.body.text) := Text.Without.iff_hasWord.2 a.body.undeclaring
  rw [Action.code_eq, a.headCode_eq]
  refine Text.Without.append_mark (by decide) ?_ (body.append_marks (Text.forall_of_all (by decide)))
  refine Text.Without.marks_append a.above.marks (mark.append_of_last signature ?_)
  rw [getLast?_attributeForm]
  rintro c ⟨⟩
  decide

theorem Action.getLast?_code (a : Action) : a.code.getLast? = some '\x7d' := by
  rw [Action.code_eq, ← List.cons_append, ← List.append_assoc, List.getLast?_concat]

namespace Class

variable (c : Class)

/-- the attribute that gives the route -/
def mark : Text := attributeForm "Route" c.route.body

/-- the code of the class -/
def code : Text := c.form Lexeme.blankOut (mask true)

/-- the code of the class up to its keyword -/
def frontCode : Text := c.frontForm Lexeme.blankOut

/-- the code between the braces -/
def insideCode : Text := c.actions.flatMap Action.code ++ c.bottom.text

theorem code_eq : c.code = c.frontCode ++ (c.heading ++ (c.baseForm ++ '\x7b' :: (c.insideCode ++ ['\x7d']))) := rfl

theorem frontCode_eq : c.frontCode = c.above.text ++
    (attributeForm "Route" (List.replicate c.route.body.length ' ') ++
      (c.below.text ++ '\n' :: (c.margin.text ++ "public "))) := by
  rw [frontCode, frontForm, c.route.blankOut_body]

theorem without_frontCode : Text.Without declaringWords c.frontCode := by
  have mark : Text.Without declaringWords (attributeForm "Route" (List.replicate c.route.body.length ' ')) :=
    without_attributeForm markName_route (by decide) _
  have modifier : Text.Without declaringWords ("public ".toList) :=
    (Text.Without.single (t := "public") (by decide) (Text.forall_of_all (by decide)) (by decide)).append_marks
      (t := [' ']) (Text.forall_of_all (by decide))
  have line : Text.Without declaringWords (c.below.text ++ '\n' :: (c.margin.text ++ "public ")) :=
    Text.Without.marks_append c.below.marks ((Text.Without.marks_append c.margin.marks modifier).cons_mark (by decide))
  rw [c.frontCode_eq]
  refine Text.Without.marks_append c.above.marks (mark.append_of_last line ?_)
  rw [getLast?_attributeForm]
  rintro c ⟨⟩
  decide

theorem getLast?_frontCode : c.frontCode.getLast? = some ' ' := by
  have last : ∀ x y z w : Text, (x ++ (y ++ (z ++ '\n' :: (w ++ "public ")))).getLast? = some ' ' := fun x y z w => by
    have shape : x ++ (y ++ (z ++ '\n' :: (w ++ "public "))) = (x ++ (y ++ (z ++ '\n' :: (w ++ "public")))) ++ [' '] := by
      simp
    rw [shape, List.getLast?_concat]
  exact last ..

theorem without_insideCode : Text.Without declaringWords c.insideCode := by
  rw [insideCode]
  induction c.actions with
  | nil => exact Text.Without.of_marks c.bottom.marks
  | cons a actions ih =>
    rw [List.flatMap_cons, List.append_assoc]
    refine a.without_code.append_of_last ih ?_
    rw [a.getLast?_code]
    rintro c ⟨⟩
    decide

/-- what follows the name -/
def tailCode : Text := c.baseForm ++ '\x7b' :: (c.insideCode ++ ['\x7d'])

theorem without_tailCode : Text.Without declaringWords c.tailCode := by
  have base : Text.Without declaringWords (": ControllerBase".toList) :=
    ((Text.Without.single (t := "ControllerBase") (by decide) (Text.forall_of_all (by decide)) (by decide)).cons_mark
      (c := ' ') (by decide)).cons_mark (c := ':') (by decide)
  exact ((base.cons_mark (by decide)).append_marks c.gap.marks).append_mark (by decide)
    (c.without_insideCode.append_marks (Text.forall_of_all (by decide)))

theorem getLast?_tailCode : c.tailCode.getLast? = some '\x7d' := by
  rw [tailCode, ← List.cons_append, ← List.append_assoc, List.getLast?_concat]

theorem getLast?_code : c.code.getLast? = some '\x7d' := by
  have shape : c.code = (c.frontCode ++ c.heading) ++ c.tailCode := by rw [code_eq, List.append_assoc]; rfl
  rw [shape, List.getLast?_append, getLast?_tailCode]
  rfl

theorem fullName_start : ∃ d ds, c.fullName = d :: ds ∧ identifierStart d = true := by
  obtain ⟨d, ds, e, start⟩ := c.name.exists_start
  exact ⟨d, ds ++ controllerSuffix, by rw [fullName, e, List.cons_append], start⟩

theorem all_fullName : ∀ d ∈ c.fullName, wordChar d = true :=
  List.forall_mem_append.2 ⟨c.name.all_wordChar, Text.forall_of_all (by decide)⟩

/-- the heading of the class when its code starts at an offset -/
def headingAt (offset : Nat) : Heading :=
  { start := offset + c.frontCode.length
    stop := offset + c.frontCode.length + c.heading.length
    kind := some .classType
    name := c.fullName }

/-- **A class has one heading**, its own. -/
theorem headingsFrom_code (offset : Nat) (before : Option Char) (rest : Text) :
    headingsFrom offset before (c.code ++ rest) =
      c.headingAt offset :: headingsFrom (offset + c.code.length) '\x7d' rest := by
  obtain ⟨tail, space⟩ : ∃ tail, c.tailCode ++ rest = ' ' :: tail := ⟨_, rfl⟩
  have shape : c.code ++ rest = c.frontCode ++ (c.heading ++ ' ' :: tail) := by
    rw [code_eq, List.append_assoc, List.append_assoc, ← space]
    rfl
  have found : declaration? (c.heading ++ ' ' :: tail) = some (some .classType, c.fullName, ' ' :: tail) :=
    (congrArg declaration? (List.append_assoc ..)).trans
      (declaration?_class c.fullName_start c.all_fullName (by decide))
  have taken : (c.heading ++ ' ' :: tail).length - (' ' :: tail).length = c.heading.length := by
    rw [List.length_append, Nat.add_sub_cancel]
  have size : c.code.length = c.frontCode.length + c.heading.length + c.tailCode.length := by
    rw [code_eq, List.length_append, List.length_append, Nat.add_assoc]
    rfl
  obtain ⟨letters, keyword⟩ : ∃ letters, c.heading ++ ' ' :: tail = 'c' :: letters := ⟨_, rfl⟩
  rw [keyword] at found taken
  rw [shape, headingsFrom_without c.getLast?_frontCode (by decide) c.without_frontCode, keyword,
    headingsFrom_some (by decide) found, taken, ← space,
    headingsFrom_without c.getLast?_tailCode (by decide) c.without_tailCode, size]
  simp only [headingAt, Nat.add_assoc]

end Class

/-- the headings of classes whose code starts at an offset -/
def headingsAt : Nat → List Class → List Heading
  | _, [] => []
  | offset, c :: cs => c.headingAt offset :: headingsAt (offset + c.code.length) cs

/-- **The headings of a document are those of its controllers**, in order. -/
theorem headings_code (classes : List Class) (bottom : Blanks) :
    headings (classes.flatMap Class.code ++ bottom.text) = headingsAt 0 classes := by
  rw [headings]
  generalize (0 : Nat) = offset
  generalize (none : Option Char) = before
  induction classes generalizing offset before with
  | nil => exact headingsFrom_marks bottom.marks offset before
  | cons c cs ih =>
    rw [List.flatMap_cons, List.append_assoc, c.headingsFrom_code, headingsAt, ih]

end Rendered

end EndpointSurvey
