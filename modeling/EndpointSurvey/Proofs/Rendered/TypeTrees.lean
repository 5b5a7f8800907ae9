/-
Types as trees: names with dots in them, generic types, arrays and nullable types. Unlike the types of a signature they
may have keywords for names, since their text is read by itself.

Main statements: `TypeTree.spaced`, `TypeTree.onePiece`, `TypeTree.trim_text` and `TypeTrees.splitTop_text` (the text of
a list of arguments is split into theirs).
-/
import EndpointSurvey.Catalog.TypeForm
import EndpointSurvey.Proofs.Rendered.Identifiers

namespace EndpointSurvey.Rendered

/-- one or more word characters -/
structure Word where
  text : Text
  filled : text.isEmpty = false
  solid : text.all wordChar = true

/-- a word, and those in front of it with a dot behind each -/
structure QualifiedName where
  qualifiers : List Word
  last : Word

def QualifiedName.text (n : QualifiedName) : Text := n.qualifiers.flatMap (·.text ++ ['.']) ++ n.last.text

mutual

/-- a type: a name with or without arguments, an array, or a nullable type -/
inductive TypeTree where
  | name (n : QualifiedName)
  | generic (n : QualifiedName) (arguments : TypeTrees)
  | array (element : TypeTree)
  | nullable (t : TypeTree)

/-- the arguments of a generic type, at least one -/
inductive TypeTrees where
  | one (t : TypeTree)
  | more (t : TypeTree) (rest : TypeTrees)

end

mutual

def TypeTree.text : TypeTree → Text
  | .name n => n.text
  | .generic n arguments => n.text ++ '<' :: (arguments.text ++ ['>'])
  | .array element => element.text ++ ['[', ']']
  | .nullable t => t.text ++ ['?']

def TypeTrees.text : TypeTrees → Text
  | .one t => t.text
  | .more t rest => t.text ++ ',' :: ' ' :: rest.text

end

/-- the texts of arguments, one by one -/
def TypeTrees.texts : TypeTrees → List Text
  | .one t => [t.text]
  | .more t rest => t.text :: rest.texts

/-! ## Names -/

theorem Word.wordChars (w : Word) : ∀ c ∈ w.text, wordChar c = true := List.all_eq_true.1 w.solid

theorem Word.ne_nil (w : Word) : w.text ≠ [] := List.isEmpty_eq_false_iff.1 w.filled

theorem Word.dot_not_mem (w : Word) : '.' ∉ w.text := fun dot => absurd (w.wordChars '.' dot) (by decide)

namespace QualifiedName

variable (n : QualifiedName)

theorem dottedChars : ∀ c ∈ n.text, dottedChar c = true := by
  have word (w : Word) : ∀ c ∈ w.text, dottedChar c = true := fun c hc => by simp [dottedChar, w.wordChars c hc]
  refine List.forall_mem_append.2 ⟨?_, word n.last⟩
  intro c hc
  obtain ⟨w, _, hc⟩ := List.mem_flatMap.1 hc
  rcases List.mem_append.1 hc with hc | hc
  · exact word w c hc
  · rw [List.mem_singleton.1 hc]
    decide

theorem bare : Bare n.text := ⟨by simp [text, n.last.ne_nil], fun c hc => bareChar_of_dottedChar (n.dottedChars c hc)⟩

/-- The last word is the name without those in front of it. -/
theorem unqualified_text : unqualified n.text = n.last.text := by
  have dotless : ∀ c ∈ n.last.text, (c != '.') = true := fun c hc =>
    bne_iff_ne.2 fun dot => n.last.dot_not_mem (dot ▸ hc)
  rw [unqualified, n.bare.trim_eq, text, Text.afterLast, Text.takeEnd_append_of_all _ dotless]
  rcases List.eq_nil_or_concat n.qualifiers with none | ⟨front, w, some⟩
  · rw [none]
    rfl
  · simp [some, Text.takeEnd]

end QualifiedName

theorem Bare.spaced {t : Text} (h : Bare t) (afterBlank : Bool) : Text.spaced afterBlank t = true := by
  obtain ⟨c, cs, rfl⟩ := List.exists_cons_of_ne_nil h.filled
  have solid := Text.spaced_solid fun d hd => not_blank_of_bareChar (h.chars d hd)
  have visible : blank c = false := not_blank_of_bareChar (h.chars c List.mem_cons_self)
  rw [Text.spaced, visible] at solid ⊢
  exact solid

/-! ## Facts about the text of every type -/

/-- a property of texts that names have and that each way to build a type keeps -/
structure TreeProperty (p : Text → Prop) : Prop where
  name (n : QualifiedName) : p n.text
  generic {n : QualifiedName} {arguments : Text} : p arguments → p (n.text ++ '<' :: (arguments ++ ['>']))
  array {t : Text} : p t → p (t ++ ['[', ']'])
  nullable {t : Text} : p t → p (t ++ ['?'])
  more {t rest : Text} : p t → p rest → p (t ++ ',' :: ' ' :: rest)

mutual

theorem TreeProperty.tree {p : Text → Prop} (h : TreeProperty p) : ∀ t : TypeTree, p t.text
  | .name n => h.name n
  | .generic _ arguments => h.generic (h.trees arguments)
  | .array element => h.array (h.tree element)
  | .nullable t => h.nullable (h.tree t)

theorem TreeProperty.trees {p : Text → Prop} (h : TreeProperty p) : ∀ a : TypeTrees, p a.text
  | .one t => h.tree t
  | .more t rest => h.more (h.tree t) (h.trees rest)

end

mutual

/-- A splitter passes over a type in one piece: its commas stand inside angle brackets. -/
theorem TypeTree.onePiece : ∀ (t : TypeTree) (depth : Nat), OnePiece true depth t.text
  | .name n, depth => n.bare.onePiece true depth
  | .generic n arguments, depth =>
    (n.bare.onePiece true depth).append
      ((arguments.onePiece depth).group (by decide) (by decide) (by decide) (by decide)) (by simp)
  | .array element, depth =>
    (element.onePiece depth).append
      (onePiece_nil.group (o := '[') (c := ']') (by decide) (by decide) (by decide) (by decide)) (by decide)
  | .nullable t, depth =>
    (t.onePiece depth).append (onePiece_even (Text.forall_of_all (by decide)) (.inr (by decide))) (by decide)

theorem TypeTrees.onePiece : ∀ (a : TypeTrees) (depth : Nat), OnePiece true (depth + 1) a.text
  | .one t, depth => t.onePiece (depth + 1)
  | .more t rest, depth =>
    (t.onePiece (depth + 1)).append
      ((rest.onePiece depth).plain_append (u := [',', ' ']) (evenMark_comma true) (.inl (Nat.succ_pos depth)))
      (by simp)

end

namespace TypeTree

variable (t : TypeTree)

/-- A test on characters that names and the marks of types pass holds all over the text of a type. -/
theorem property_all {p : Char → Prop} (name : ∀ c, dottedChar c = true → p c)
    (marks : ∀ c ∈ (['<', '>', '[', ']', '?', ',', ' '] : Text), p c) : TreeProperty fun t => ∀ c ∈ t, p c := by
  simp only [List.forall_mem_cons, List.not_mem_nil, false_implies, implies_true, and_true] at marks
  obtain ⟨opening, closing, left, right, question, comma, space⟩ := marks
  exact
    { name := fun n c hc => name c (n.dottedChars c hc)
      generic := fun {n _} inside => List.forall_mem_append.2 ⟨fun c hc => name c (n.dottedChars c hc),
        List.forall_mem_cons.2 ⟨opening, List.forall_mem_append.2 ⟨inside, List.forall_mem_singleton.2 closing⟩⟩⟩
      array := fun inside => List.forall_mem_append.2
        ⟨inside, List.forall_mem_cons.2 ⟨left, List.forall_mem_singleton.2 right⟩⟩
      nullable := fun inside => List.forall_mem_append.2 ⟨inside, List.forall_mem_singleton.2 question⟩
      more := fun first rest => List.forall_mem_append.2
        ⟨first, List.forall_mem_cons.2 ⟨comma, List.forall_mem_cons.2 ⟨space, rest⟩⟩⟩ }

theorem property_spaced : TreeProperty fun t => ∀ afterBlank, Text.spaced afterBlank t = true where
  name n := n.bare.spaced
  generic {n arguments} inside afterBlank := by
    have closed : Text.spaced false (arguments ++ ['>']) = true := by
      rw [Text.spaced_append (inside false)]
      decide
    rw [Text.spaced_append (n.bare.spaced afterBlank)]
    exact closed
  array inside afterBlank := by
    rw [Text.spaced_append (inside afterBlank)]
    decide
  nullable inside afterBlank := by
    rw [Text.spaced_append (inside afterBlank)]
    decide
  more first rest afterBlank := by
    rw [Text.spaced_append (first afterBlank)]
    exact rest true

/-- The words of a type stand one space apart. -/
theorem spaced (afterBlank : Bool) : Text.spaced afterBlank t.text = true := property_spaced.tree t afterBlank

/-- A type starts with a name. -/
theorem exists_start : ∃ c cs, t.text = c :: cs ∧ dottedChar c = true := by
  have grow {s x : Text} : (∃ c cs, s = c :: cs ∧ dottedChar c = true) →
      ∃ c cs, s ++ x = c :: cs ∧ dottedChar c = true := by
    rintro ⟨c, cs, rfl, dotted⟩
    exact ⟨c, cs ++ x, rfl, dotted⟩
  have name (n : QualifiedName) : ∃ c cs, n.text = c :: cs ∧ dottedChar c = true := by
    obtain ⟨c, cs, e⟩ := List.exists_cons_of_ne_nil n.bare.filled
    exact ⟨c, cs, e, n.dottedChars c (e ▸ List.mem_cons_self)⟩
  exact TreeProperty.tree (p := fun s => ∃ c cs, s = c :: cs ∧ dottedChar c = true)
    { name := name
      generic := fun {n _} _ => grow (name n)
      array := grow
      nullable := grow
      more := fun first _ => grow first } t

theorem ne_nil : t.text ≠ [] := by
  obtain ⟨c, cs, e, -⟩ := t.exists_start
  rw [e]
  exact List.cons_ne_nil c cs

theorem head_solid : ∀ c ∈ t.text.head?, blank c = false := by
  obtain ⟨c, cs, e, dotted⟩ := t.exists_start
  intro d first
  rw [e] at first
  cases first
  exact not_blank_of_bareChar (bareChar_of_dottedChar dotted)

theorem last_solid : ∀ c ∈ t.text.getLast?, blank c = false := Text.spaced_last (t.spaced false)

theorem trim_text : t.text.trim = t.text := Text.trim_ends t.head_solid t.last_solid

end TypeTree

namespace TypeTrees

theorem exists_text : ∀ a : TypeTrees, ∀ x ∈ a.texts, ∃ t : TypeTree, x = t.text
  | .one t => List.forall_mem_singleton.2 ⟨t, rfl⟩
  | .more t rest => List.forall_mem_cons.2 ⟨⟨t, rfl⟩, rest.exists_text⟩

theorem exists_texts : ∀ a : TypeTrees, ∃ first rest, a.texts = first :: rest
  | .one t => ⟨t.text, [], rfl⟩
  | .more t rest => ⟨t.text, rest.texts, rfl⟩

theorem text_eq : ∀ a : TypeTrees, a.text = Text.join ", " a.texts
  | .one t => by simp [text, texts, Text.join]
  | .more t rest => by
    obtain ⟨next, others, e⟩ := rest.exists_texts
    rw [text, texts, rest.text_eq, e, Text.join_cons]
    rfl

/-- The text of a list of arguments is split into theirs. -/
theorem splitTop_text (a : TypeTrees) : splitTop ',' true a.text = a.texts := by
  obtain ⟨first, rest, e⟩ := a.exists_texts
  rw [a.text_eq]
  apply splitTop_join
  · rw [e]
    exact List.cons_ne_nil first rest
  · intro x hx
    obtain ⟨t, rfl⟩ := a.exists_text x hx
    exact ⟨t.onePiece 0, t.trim_text⟩
  · intro x hx
    obtain ⟨t, rfl⟩ := a.exists_text x hx
    exact t.ne_nil

end TypeTrees

/-! ## The outermost layer -/

namespace TypeTree

theorem collapse_text (t : TypeTree) : t.text.collapse = t.text := Text.collapse_spaced (t.spaced true)

theorem ofText_closed (t : TypeTree) (closed : ∀ c ∈ t.text.getLast?, c ≠ '?') :
    TypeText.ofText t.text = ⟨t.text, false⟩ := by
  have core : Text.dropEnd (· == '?') t.text = t.text := by
    simpa using @Text.dropEnd_padded (· == '?') t.text [] (fun c last => by simpa using closed c last) (by simp)
  have last : ¬ t.text.getLast? = some '?' := fun last => closed '?' last rfl
  rw [TypeText.ofText, t.collapse_text, core, t.trim_text, decide_eq_false last]

theorem ofText_nullable (t : TypeTree) :
    TypeText.ofText (nullable t).text = { TypeText.ofText t.text with nullable := true } := by
  have core : Text.dropEnd (· == '?') (t.text ++ ['?']) = Text.dropEnd (· == '?') t.text := by
    simp [Text.dropEnd]
  rw [TypeText.ofText, collapse_text, TypeText.ofText, collapse_text, text, core, List.getLast?_concat,
    decide_eq_true rfl]

end TypeTree

namespace QualifiedName

variable (n : QualifiedName) (nullable : Bool)

theorem ofText_name : TypeText.ofText n.text = ⟨n.text, false⟩ :=
  (TypeTree.name n).ofText_closed fun c last question => by
    have dotted := n.dottedChars c (List.mem_of_getLast? last)
    rw [question] at dotted
    cases dotted

theorem form_name : (TypeText.mk n.text nullable).form = .plain :=
  TypeText.form_plain n.bare.filled fun c hc => ⟨n.bare.ne_of_mem hc (by decide), n.bare.ne_of_mem hc (by decide)⟩

theorem getLast?_generic (a : TypeTrees) : (TypeTree.generic n a).text.getLast? = some '>' := by
  rw [TypeTree.text, ← List.cons_append, ← List.append_assoc, List.getLast?_concat]

theorem ofText_generic (a : TypeTrees) :
    TypeText.ofText (TypeTree.generic n a).text = ⟨(TypeTree.generic n a).text, false⟩ := by
  refine TypeTree.ofText_closed _ ?_
  rw [n.getLast?_generic]
  rintro _ ⟨⟩
  decide

theorem generic?_text (a : TypeTrees) : TypeText.generic? (TypeTree.generic n a).text = some (n.text, a.text) := by
  have stop : ¬ dottedChar '<' = true := by decide
  have base : (TypeTree.generic n a).text.takeWhile dottedChar = n.text := by
    rw [TypeTree.text, List.takeWhile_append_of_pos n.dottedChars, List.takeWhile_cons_of_neg stop, List.append_nil]
  have behind : (TypeTree.generic n a).text.dropWhile dottedChar = '<' :: (a.text ++ ['>']) := by
    rw [TypeTree.text, List.dropWhile_append_of_pos n.dottedChars, List.dropWhile_cons_of_neg stop]
  rw [TypeText.generic?, base, behind, List.dropWhile_cons_of_neg (by decide)]
  simp [n.bare.filled]

theorem form_generic (a : TypeTrees) :
    (TypeText.mk (TypeTree.generic n a).text nullable).form = .generic n.text a.texts := by
  have open_ : Text.endsWith ['[', ']'] (TypeTree.generic n a).text = false := by
    rw [Bool.eq_false_iff]
    intro ends
    obtain ⟨front, e⟩ : ['[', ']'] <:+ (TypeTree.generic n a).text := by simpa [Text.endsWith] using ends
    have last := n.getLast?_generic a
    simp [← e] at last
  rw [TypeText.form, if_neg (by simpa using (TypeTree.generic n a).ne_nil), open_, if_neg Bool.false_ne_true]
  simp only [n.generic?_text, a.splitTop_text]

end QualifiedName

theorem TypeTree.ofText_array (t : TypeTree) :
    TypeText.ofText (TypeTree.array t).text = ⟨(TypeTree.array t).text, false⟩ := by
  apply TypeTree.ofText_closed
  intro c last
  have square : (TypeTree.array t).text.getLast? = some ']' := by simp [TypeTree.text]
  rw [square] at last
  cases last
  decide

theorem TypeTree.form_array (t : TypeTree) (nullable : Bool) :
    (TypeText.mk (TypeTree.array t).text nullable).form = .array t.text := by
  have ends : Text.endsWith ['[', ']'] (TypeTree.array t).text = true := by simp [Text.endsWith, TypeTree.text]
  rw [TypeText.form, if_neg (by simpa using (TypeTree.array t).ne_nil), if_pos ends]
  simp [TypeTree.text, t.trim_text]

end EndpointSurvey.Rendered
