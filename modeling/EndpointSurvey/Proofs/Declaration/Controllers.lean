/-
Which types are taken for controllers. A mark is looked for among the words of the attribute text as it is written, and
a controller's name among the words of a base type; both are more than the names of attributes and bases.

Main statements: `Attribute.mem_runWords_iff` (where a word of an attribute text stands), `namesController_iff` (where
the name of a controller stands in a base type) and `TypeBlock.isController_iff`.
-/
import EndpointSurvey.Proofs.Source.Enclosed

namespace EndpointSurvey

/-! ## Attribute texts -/

namespace Attribute

/-- the last part of a name as it is written -/
def lastPart (name : Text) : Text := Text.afterLast '.' (name.dropWhile (· == '@'))

/-- what qualifies a name as it is written -/
def qualifiers (name : Text) : Text := Text.dropEnd (· != '.') (name.dropWhile (· == '@'))

/-- the name that an entry starts with, as it is written -/
def writtenName (entry : Text) : Text := entry.take 1 ++ (entry.drop 1).takeWhile dottedChar

/-- what follows the name: type arguments and arguments -/
def afterName (entry : Text) : Text := (entry.drop 1).dropWhile dottedChar

/-- the attribute is written with the full name of its class -/
def InFull (a : Attribute) : Prop := lastPart (writtenName a.raw) = a.name ++ suffix

/-- where a part of a group writes something else than the attribute's name: in front of the name and after it, or, if
it writes no attribute, everywhere -/
def besideName (part : Text) : List Text :=
  let entry := (afterTarget? part).getD part
  if (ofPart? part).isSome then [qualifiers (writtenName entry), afterName entry] else [part]

/-- where an attribute text writes something else than the names of attributes: outside its groups, and in the parts of
its groups beside the names -/
def besideNames (t : Text) : List Text :=
  Source.exposed '[' ']' (Source.ofText t) :: (groupContents (Source.ofText t)).flatMap fun content =>
    (splitTop ',' false content).flatMap besideName

variable {word : Text}

/-- A written name is made up of its qualifiers, each with a dot behind it, and its last part. -/
theorem mem_runWords_name {name : Text} {c : Char} {cs : Text} (start : identifierStart c = true ∨ c = '@')
    (shape : name = c :: cs.takeWhile dottedChar) (filled : word ≠ []) :
    word ∈ Text.runWords name ↔ lastPart name = word ∨ word ∈ Text.runWords (qualifiers name) := by
  have dotted : ∀ d ∈ name.dropWhile (· == '@'), dottedChar d = true := by
    intro d member
    rw [shape] at member
    rcases start with letter | rfl
    · rcases List.mem_cons.1 ((List.dropWhile_suffix _).subset member) with rfl | later
      · simp [dottedChar, identifierStart_wordChar letter]
      · exact List.mem_takeWhile_imp later
    · exact List.mem_takeWhile_imp ((List.dropWhile_suffix _).subset member)
  have parts : qualifiers name ++ lastPart name = name.dropWhile (· == '@') := Text.dropEnd_append_takeEnd _ _
  have solid : ∀ d ∈ lastPart name, wordChar d = true := by
    intro d member
    have inside : d ∈ name.dropWhile (· == '@') := parts ▸ List.mem_append_right _ member
    have undotted : (d != '.') = true := Text.of_mem_takeEnd (p := (· != '.')) member
    have either := dotted d inside
    simp only [dottedChar, Bool.or_eq_true, beq_iff_eq] at either
    exact either.resolve_right (by simpa using undotted)
  have edge : ∀ d ∈ (qualifiers name).getLast?, wordChar d = false := by
    intro d last
    obtain rfl : d = '.' := by simpa using Text.last_dropEnd (· != '.') _ d last
    decide
  have whole : Text.runWords name = Text.runWords (qualifiers name) ++ Text.runWords (lastPart name) := by
    rw [← Text.runWords_append_of_last edge, parts, Text.runWords_dropWhile]
    rintro d at_
    obtain rfl : d = '@' := by simpa using at_
    decide
  rw [whole, List.mem_append, or_comm]
  refine or_congr_left ?_
  by_cases empty : lastPart name = []
  · rw [empty, Text.runWords_nil]
    exact iff_of_false List.not_mem_nil fun same => filled same.symm
  · rw [Text.runWords_single empty solid, List.mem_singleton, eq_comm]

/-- A target word and its colon stand apart from the words of the entry. -/
theorem runWords_of_afterTarget? {part rest : Text} (h : afterTarget? part = some rest) :
    ∃ target ∈ targets, Text.runWords part = target :: Text.runWords rest := by
  have spelled : ∀ target ∈ targets, target ≠ [] ∧ target.all wordChar = true := by decide
  obtain ⟨target, listed, h⟩ := List.exists_of_findSome?_eq_some h
  obtain ⟨after, found, h⟩ := Option.bind_eq_some_iff.1 h
  refine ⟨target, listed, ?_⟩
  split at h
  · next tail colon =>
    split at h
    · cases h
    · cases h
      have edge : ∀ c ∈ after.head?, wordChar c = false := by
        intro c first
        obtain ⟨cs, rfl⟩ := List.head?_eq_some_iff.1 first
        by_cases gap : blank c = true
        · exact not_wordChar_of_blank gap
        · rw [List.dropWhile_cons_of_neg gap] at colon
          obtain rfl := (List.cons.inj colon).1
          decide
      have apart : Text.runWords after = Text.runWords (tail.dropWhile blank) := by
        rw [← Text.runWords_dropWhile (fun _ => not_wordChar_of_blank) after, colon,
          Text.runWords_cons_mark (by decide), Text.runWords_dropWhile fun _ => not_wordChar_of_blank]
      rw [← Lexeme.after?_append found, Text.runWords_append_of_head edge,
        Text.runWords_single (spelled target listed).1 (List.all_eq_true.1 (spelled target listed).2), apart]
      rfl
  · cases h

theorem shape_of_nameAndArguments? {entry : Text} {found : Text × Text} (h : nameAndArguments? entry = some found) :
    found.1 = writtenName entry ∧
      ∃ c cs, entry = c :: cs ∧ (identifierStart c = true ∨ c = '@') ∧
        writtenName entry = c :: cs.takeWhile dottedChar := by
  unfold nameAndArguments? at h
  cases entry with
  | nil => cases h
  | cons c cs =>
    simp only at h
    split at h
    · next start =>
      simp only [Bool.or_eq_true, beq_iff_eq] at start
      obtain ⟨rest, -, h⟩ := Option.bind_eq_some_iff.1 h
      refine ⟨?_, c, cs, rfl, start, rfl⟩
      split at h
      · cases h
        rfl
      · split at h <;> cases h
        rfl
      · cases h
    · cases h

/-- A word of a part of a group is the last part of an attribute's name, or it stands beside the name. -/
theorem mem_runWords_part {part : Text} (filled : word ≠ []) (other : word ∉ targets) :
    word ∈ Text.runWords part ↔
      (∃ a, ofPart? part = some a ∧ lastPart (writtenName a.raw) = word) ∨
        ∃ t ∈ besideName part, word ∈ Text.runWords t := by
  cases written : ofPart? part with
  | none => simp [besideName, written]
  | some a =>
    have entry_words : word ∈ Text.runWords part ↔ word ∈ Text.runWords ((afterTarget? part).getD part) := by
      cases found : afterTarget? part with
      | none => rfl
      | some rest =>
        obtain ⟨target, listed, words⟩ := runWords_of_afterTarget? found
        rw [words, List.mem_cons, Option.getD_some, or_iff_right]
        rintro rfl
        exact other listed
    have besides : besideName part = [qualifiers (writtenName ((afterTarget? part).getD part)),
        afterName ((afterTarget? part).getD part)] := by simp [besideName, written]
    rw [besides, entry_words]
    unfold ofPart? at written
    generalize (afterTarget? part).getD part = entry at written ⊢
    simp only at written
    split at written
    · cases written
    · obtain ⟨found, named, rfl⟩ := Option.map_eq_some_iff.1 written
      obtain ⟨-, c, cs, rfl, start, shape⟩ := shape_of_nameAndArguments? named
      have edge : ∀ d ∈ (afterName (c :: cs)).head?, wordChar d = false := by
        intro d first
        have stop := Text.first_dropWhile dottedChar cs d first
        simp only [dottedChar, Bool.or_eq_false_iff] at stop
        exact stop.1
      have cut : c :: cs = writtenName (c :: cs) ++ afterName (c :: cs) := by
        rw [shape, afterName]
        simp
      conv => lhs; rw [cut, Text.runWords_append_of_head edge, List.mem_append, mem_runWords_name start shape filled]
      simp [or_assoc]

/-- A word of a content of a group stands in one of its parts. -/
theorem mem_runWords_content {content : Text} :
    word ∈ Text.runWords content ↔ ∃ part ∈ splitTop ',' false content, word ∈ Text.runWords part := by
  have comma : Text.runWords content = (segments ',' false content).flatMap Text.runWords := by
    rw [← Text.runWords_join (c := ',') (by decide), segments_join]
  have trimmed : (segments ',' false content).flatMap Text.runWords =
      ((segments ',' false content).map Text.trim).flatMap Text.runWords := by
    rw [List.flatMap_map]
    exact List.flatMap_congr fun part _ => (Text.runWords_trim part).symm
  -- a last part without content, which is left out, has no word
  have kept : ∀ parts : List Text, (if parts.getLast? = some [] then parts.dropLast else parts).flatMap Text.runWords =
      parts.flatMap Text.runWords := by
    intro parts
    split
    · next last =>
      conv => rhs; rw [← List.dropLast_append_getLast? [] last, List.flatMap_append, List.flatMap_singleton,
        Text.runWords_nil, List.append_nil]
    · rfl
  rw [comma, trimmed, ← kept, List.mem_flatMap]
  rfl

/-- **Where a word of an attribute text stands**: it is the last part of an attribute's name, or it stands beside the
names. -/
theorem mem_runWords_iff {t : Text} (filled : word ≠ []) (other : word ∉ targets) :
    word ∈ Text.runWords t ↔ (∃ a ∈ attributesOf t, lastPart (writtenName a.raw) = word) ∨
      ∃ u ∈ besideNames t, word ∈ Text.runWords u := by
  have groups := Source.mem_runWords_iff '[' ']' word (Source.blanked_ofText t) (by decide) (by decide) (by decide)
  rw [Source.raw_ofText, ← Source.groupContents_eq] at groups
  rw [groups, besideNames, attributesOf]
  simp only [List.mem_cons, List.mem_flatMap, List.mem_filterMap, exists_eq_or_imp]
  constructor
  · rintro (outside | ⟨content, group, member⟩)
    · exact .inr (.inl outside)
    · obtain ⟨part, listed, member⟩ := mem_runWords_content.1 member
      rcases (mem_runWords_part filled other).1 member with ⟨a, written, named⟩ | ⟨u, beside, member⟩
      · exact .inl ⟨a, ⟨content, group, part, listed, written⟩, named⟩
      · exact .inr (.inr ⟨u, ⟨content, group, part, listed, beside⟩, member⟩)
  · rintro (⟨a, ⟨content, group, part, listed, written⟩, named⟩ |
      outside | ⟨u, ⟨content, group, part, listed, beside⟩, member⟩)
    · exact .inr ⟨content, group, mem_runWords_content.2
        ⟨part, listed, (mem_runWords_part filled other).2 (.inl ⟨a, written, named⟩)⟩⟩
    · exact .inl outside
    · exact .inr ⟨content, group, mem_runWords_content.2
        ⟨part, listed, (mem_runWords_part filled other).2 (.inr ⟨u, beside, member⟩)⟩⟩

theorem name_of_mem {t : Text} {a : Attribute} (member : a ∈ attributesOf t) :
    a.name = shortName (writtenName a.raw) := by
  obtain ⟨content, -, member⟩ := List.mem_flatMap.1 member
  obtain ⟨part, -, written⟩ := List.mem_filterMap.1 member
  unfold ofPart? at written
  simp only at written
  split at written
  · cases written
  · obtain ⟨found, named, rfl⟩ := Option.map_eq_some_iff.1 written
    exact congrArg shortName (shape_of_nameAndArguments? named).1

/-- An attribute goes by the last part of its name as it is written, without the ending of a full name. -/
theorem name_eq_iff {t : Text} {a : Attribute} (member : a ∈ attributesOf t) {mark : Text} (filled : mark ≠ [])
    (short : Text.endsWith suffix mark = false) :
    a.name = mark ↔ lastPart (writtenName a.raw) = mark ∨ lastPart (writtenName a.raw) = mark ++ suffix := by
  have suffixed : ∀ front : Text, Text.endsWith suffix (front ++ suffix) = true :=
    fun front => List.isSuffixOf_iff_suffix.2 (List.suffix_append front suffix)
  have short_name : a.name = if Text.endsWith suffix (lastPart (writtenName a.raw)) &&
      suffix.length < (lastPart (writtenName a.raw)).length
      then (lastPart (writtenName a.raw)).take ((lastPart (writtenName a.raw)).length - suffix.length)
      else lastPart (writtenName a.raw) := name_of_mem member
  rw [short_name]
  generalize lastPart (writtenName a.raw) = last
  by_cases ends : Text.endsWith suffix last = true
  · obtain ⟨front, rfl⟩ := List.isSuffixOf_iff_suffix.1 ends
    have differs : front ++ suffix ≠ mark := by
      rintro rfl
      rw [ends] at short
      cases short
    rw [or_iff_right differs]
    by_cases empty : front = []
    · subst empty
      exact iff_of_false (by simpa using differs) fun same => filled (List.append_cancel_right same).symm
    · have longer : 0 < front.length := List.length_pos_iff.2 empty
      simp [ends, longer]
  · have differs : last ≠ mark ++ suffix := by
      rintro rfl
      exact ends (suffixed mark)
    simp [ends, differs]

end Attribute

/-! ## Base types -/

/-- a word that ends as the name of a controller does -/
def ControllerName (word : Text) : Prop :=
  Text.endsWith "Controller" word = true ∨ Text.endsWith "ControllerBase" word = true

instance (word : Text) : Decidable (ControllerName word) :=
  inferInstanceAs (Decidable (Text.endsWith "Controller" word = true ∨ Text.endsWith "ControllerBase" word = true))

/-- a base type without its type arguments -/
def withoutTypeArguments (base : Text) : Text := Source.exposed '<' '>' (Source.plain base)

/-- the words of a base type's name with its qualifiers: in front of arguments, and outside type arguments -/
def nameWordsOf (base : Text) : List Text := Text.runWords (Text.beforeFirst '(' (withoutTypeArguments base))

/-- the name of a base type without qualifiers and type arguments -/
def bareName (base : Text) : Text := ((nameWordsOf base).getLast?).getD []

/-- the other words of a base type: its qualifiers, its type arguments and its arguments -/
def wordsBesideBareName (base : Text) : List Text :=
  (nameWordsOf base).dropLast ++ Text.runWords ((withoutTypeArguments base).dropWhile (· != '(')) ++
    (Source.enclosed '<' '>' (Source.plain base)).flatMap Text.runWords

/-- **Where the name of a controller stands in a base type**: it is the type's own name, or it stands beside it. -/
theorem namesController_iff (base : Text) :
    namesController base = true ↔
      ControllerName (bareName base) ∨ ∃ word ∈ wordsBesideBareName base, ControllerName word := by
  have some_word : namesController base = true ↔ ∃ word ∈ Text.runWords base, ControllerName word := by
    simp [namesController, Text.runWords, ControllerName]
  have sides : ∀ word, word ∈ Text.runWords base ↔ word ∈ nameWordsOf base ∨
      word ∈ Text.runWords ((withoutTypeArguments base).dropWhile (· != '(')) ∨
        word ∈ (Source.enclosed '<' '>' (Source.plain base)).flatMap Text.runWords := by
    intro word
    have angles := Source.mem_runWords_iff '<' '>' word (Source.blanked_plain base) (by decide) (by decide) (by decide)
    have edge : ∀ c ∈ ((withoutTypeArguments base).dropWhile (· != '(')).head?, wordChar c = false := by
      intro c first
      obtain rfl : c = '(' := by simpa using Text.first_dropWhile (· != '(') _ c first
      decide
    have cut : Text.runWords (withoutTypeArguments base) =
        nameWordsOf base ++ Text.runWords ((withoutTypeArguments base).dropWhile (· != '(')) := by
      rw [nameWordsOf, ← Text.runWords_append_of_head edge, Text.beforeFirst, List.takeWhile_append_dropWhile]
    have whole : (Source.plain base).raw = base := rfl
    rw [whole, ← withoutTypeArguments, cut, List.mem_append, or_assoc] at angles
    rw [angles, List.mem_flatMap]
  have nameless : ¬ ControllerName [] := by decide
  have last_word : (∃ word ∈ nameWordsOf base, ControllerName word) ↔
      ControllerName (bareName base) ∨ ∃ word ∈ (nameWordsOf base).dropLast, ControllerName word := by
    rw [bareName]
    rcases List.eq_nil_or_concat (nameWordsOf base) with none | ⟨front, last, words⟩
    · simp [none, nameless]
    · simp only [words, List.concat_eq_append, List.mem_append, List.mem_singleton, List.getLast?_concat,
        Option.getD_some, List.dropLast_concat, or_and_right, exists_or, exists_eq_left]
      exact or_comm
  rw [some_word]
  simp only [sides, wordsBesideBareName, List.mem_append, or_and_right, exists_or, last_word, or_assoc]

/-! ## Controllers -/

namespace TypeBlock

/-- the type is declared as a controller: by an attribute with the name of a mark, or, if it is a class, by its own name
or the name of a base type -/
def DeclaresController (b : TypeBlock) : Prop :=
  (∃ a ∈ attributesOf b.attributeText, a.name ∈ controllerMarks) ∨
    b.kind = .classType ∧
      (Text.endsWith "Controller" b.name = true ∨ ∃ base ∈ b.baseTypes, ControllerName (bareName base))

/-- nothing declares the controller but attributes whose names are written in full -/
def DeclaredInFull (b : TypeBlock) : Prop :=
  (∀ a ∈ attributesOf b.attributeText, a.name ∈ controllerMarks → a.InFull) ∧
    ¬ (b.kind = .classType ∧
      (Text.endsWith "Controller" b.name = true ∨ ∃ base ∈ b.baseTypes, ControllerName (bareName base)))

/-- a mark stands beside the names of attributes, or, in a class, a controller's name beside the name of a base type -/
def MentionsController (b : TypeBlock) : Prop :=
  (∃ mark ∈ controllerMarks, ∃ t ∈ Attribute.besideNames b.attributeText, mark ∈ Text.runWords t) ∨
    b.kind = .classType ∧ ∃ base ∈ b.baseTypes, ∃ word ∈ wordsBesideBareName base, ControllerName word

/-- A mark among the words of the attributes is an attribute's name that is not written in full, or it stands beside the
names. -/
theorem mentions_mark_iff (t : Text) :
    (∃ mark ∈ controllerMarks, mark ∈ Text.runWords t) ↔
      (∃ a ∈ attributesOf t, a.name ∈ controllerMarks ∧ ¬ a.InFull) ∨
        ∃ mark ∈ controllerMarks, ∃ u ∈ Attribute.besideNames t, mark ∈ Text.runWords u := by
  have spelled : ∀ mark ∈ controllerMarks, mark ≠ [] ∧ mark ∉ Attribute.targets ∧
      Text.endsWith Attribute.suffix mark = false := by decide +kernel
  constructor
  · rintro ⟨mark, listed, member⟩
    obtain ⟨filled, other, short⟩ := spelled mark listed
    rcases (Attribute.mem_runWords_iff filled other).1 member with ⟨a, there, written⟩ | beside
    · have name : a.name = mark := (Attribute.name_eq_iff there filled short).2 (.inl written)
      refine .inl ⟨a, there, name ▸ listed, fun full => ?_⟩
      rw [Attribute.InFull, written, name] at full
      exact absurd (List.self_eq_append_right.1 full) (by decide)
    · exact .inr ⟨mark, listed, beside⟩
  · rintro (⟨a, there, listed, short_form⟩ | ⟨mark, listed, beside⟩)
    · obtain ⟨filled, other, short⟩ := spelled a.name listed
      have written := ((Attribute.name_eq_iff there filled short).1 rfl).resolve_right short_form
      exact ⟨a.name, listed, (Attribute.mem_runWords_iff filled other).2 (.inl ⟨a, there, written⟩)⟩
    · obtain ⟨filled, other, -⟩ := spelled mark listed
      exact ⟨mark, listed, (Attribute.mem_runWords_iff filled other).2 (.inr beside)⟩

/-- the search for marks and names, as a search for words -/
theorem isController_iff_words (b : TypeBlock) :
    b.isController = true ↔ (∃ mark ∈ controllerMarks, mark ∈ Text.runWords b.attributeText) ∨
      b.kind = .classType ∧
        (Text.endsWith "Controller" b.name = true ∨ ∃ base ∈ b.baseTypes, namesController base = true) := by
  simp only [isController, Bool.or_eq_true, Bool.and_eq_true, List.any_eq_true, Text.hasWord_eq, List.contains_eq_mem,
    decide_eq_true_eq, beq_iff_eq]

/-- **Which types are taken for controllers**: those that are declared as controllers, unless only by attributes whose
names are written in full, and besides those that mention one, wherever it may be. -/
theorem isController_iff (b : TypeBlock) :
    b.isController = true ↔ (b.DeclaresController ∧ ¬ b.DeclaredInFull) ∨ b.MentionsController := by
  have not_in_full : (∃ a ∈ attributesOf b.attributeText, a.name ∈ controllerMarks ∧ ¬ a.InFull) ↔
      (∃ a ∈ attributesOf b.attributeText, a.name ∈ controllerMarks) ∧
        ¬ ∀ a ∈ attributesOf b.attributeText, a.name ∈ controllerMarks → a.InFull := by
    push Not
    exact ⟨fun ⟨a, there, listed, short⟩ => ⟨⟨a, there, listed⟩, a, there, listed, short⟩, fun both => both.2⟩
  have bases : (∃ base ∈ b.baseTypes, namesController base = true) ↔
      (∃ base ∈ b.baseTypes, ControllerName (bareName base)) ∨
        ∃ base ∈ b.baseTypes, ∃ word ∈ wordsBesideBareName base, ControllerName word := by
    simp only [namesController_iff, and_or_left, exists_or]
  rw [isController_iff_words, mentions_mark_iff, not_in_full, bases, DeclaresController, DeclaredInFull,
    MentionsController]
  clear not_in_full bases
  -- what is left is about which of the five searches succeed, whatever they search for
  generalize (∃ a ∈ attributesOf b.attributeText, a.name ∈ controllerMarks) = marked
  generalize (∀ a ∈ attributesOf b.attributeText, a.name ∈ controllerMarks → a.InFull) = in_full
  generalize (∃ mark ∈ controllerMarks, ∃ u ∈ Attribute.besideNames b.attributeText, mark ∈ Text.runWords u) = mentioned
  generalize (∃ base ∈ b.baseTypes, ∃ word ∈ wordsBesideBareName base, ControllerName word) = beside
  generalize (∃ base ∈ b.baseTypes, ControllerName (bareName base)) = derived
  generalize (Text.endsWith "Controller" b.name = true) = named
  generalize (b.kind = .classType) = is_class
  tauto

end TypeBlock

end EndpointSurvey
