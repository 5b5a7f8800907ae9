/-
Names and types as they are rendered in documents. They are types as they are written, in their canonical spelling, so
that what holds of those holds of them. What holds of these types beyond that is proved once, by induction over the
type: it has no other characters than those of names and the marks of types, its brackets pair up, and its words are no
keywords.

Main statements: `TypeExpr.form`, `TypeExpr.paired` and `TypeExpr.free`.
-/
import EndpointSurvey.Proofs.Rendered.Basic
import EndpointSurvey.Proofs.Rendered.TypeForms

namespace EndpointSurvey

namespace Rendered

/-! ## Characters -/

theorem nameChar_bounds {c : Char} (h : nameChar c = true) : 48 ≤ c.toNat ∧ c.toNat ≤ 122 := by
  simp only [nameChar, Char.isAlphanum, Char.isDigit, Bool.or_eq_true, Bool.and_eq_true, decide_eq_true_eq,
    beq_iff_eq] at h
  rcases h with (letter | ⟨low, high⟩) | rfl
  · obtain ⟨low, high⟩ := isAlpha_bounds letter
    exact ⟨Nat.le_trans (by decide) low, high⟩
  · exact ⟨show 48 ≤ c.toNat from low, Nat.le_trans (show c.toNat ≤ 57 from high) (by decide)⟩
  · decide

theorem wordChar_of_nameChar {c : Char} (h : nameChar c = true) : wordChar c = true := by
  have low : c.toNat < 128 := by have := nameChar_bounds h; omega
  rw [wordChar, if_pos low]
  exact h

theorem not_blank_of_nameChar {c : Char} (h : nameChar c = true) : blank c = false := by
  obtain ⟨low, high⟩ := nameChar_bounds h
  simp only [blank, Bool.or_eq_false_iff, Bool.and_eq_false_iff, beq_eq_false_iff_ne, decide_eq_false_iff_not]
  refine ⟨⟨⟨?_, ?_⟩, ?_⟩, Or.inl ?_⟩ <;> omega

/-- a character of the text of a type -/
def typeChar (c : Char) : Bool := nameChar c || typeMark c || c == ' '

namespace Name

variable (n : Name)

theorem all_nameChar : ∀ c ∈ n.text, nameChar c = true := by
  have h := n.isName
  simp only [Rendered.isName, Bool.and_eq_true] at h
  exact List.all_eq_true.1 h.1.2

theorem not_kept : n.text ∉ keptWords := by
  have h := n.isName
  simp only [Rendered.isName, Bool.and_eq_true] at h
  simpa using h.2

theorem exists_start : ∃ c cs, n.text = c :: cs ∧ identifierStart c = true := by
  have h := n.isName
  simp only [Rendered.isName, Bool.and_eq_true] at h
  cases e : n.text with
  | nil => rw [e] at h; simp at h
  | cons c cs => exact ⟨c, cs, rfl, by rw [e] at h; simpa using h.1.1⟩

theorem ne_nil : n.text ≠ [] := by
  obtain ⟨c, cs, e, -⟩ := n.exists_start
  rw [e]
  exact List.cons_ne_nil c cs

theorem all_wordChar : ∀ c ∈ n.text, wordChar c = true := fun c hc => wordChar_of_nameChar (n.all_nameChar c hc)

theorem solid : ∀ c ∈ n.text, blank c = false := fun c hc => not_blank_of_nameChar (n.all_nameChar c hc)

theorem runWords_eq : Text.runWords n.text = [n.text] := Text.runWords_single n.ne_nil n.all_wordChar

theorem words_eq : Text.words n.text = [n.text] := Text.words_single n.ne_nil n.solid

/-- the name among all identifiers -/
def identifier : Identifier where
  text := n.text
  start := by
    obtain ⟨c, cs, e, start⟩ := n.exists_start
    rw [e]
    exact start
  word := List.all_eq_true.2 n.all_wordChar

end Name

theorem Name.form (n : Name) : TypeForm n.text n.text := by
  have alone : dottedName [n.identifier] = n.text := by simp [dottedName, Text.join, identifier]
  have free : dottedName [n.identifier] ∉ RawParameter.modifiers := by
    rw [alone]
    exact fun modifier => n.not_kept (by simp [keptWords, modifier])
  have form := TypeForm.name n.identifier [] free
  rwa [alone] at form

/-! ## Types -/

mutual

/-- Rendered types are in their canonical spelling: the only spaces stand behind commas. -/
theorem TypeExpr.form : ∀ t : TypeExpr, TypeForm t.text t.text
  | .name n => n.form
  | .generic n arguments => by
    obtain ⟨parts, filled, each, written, canonical⟩ := TypeArguments.exists_forms arguments false
    have whole := TypeForm.generic false filled each n.form
    rw [written, canonical] at whole
    exact whole
  | .array element => .array false false element.form
  | .nullable t => .nullable false t.form

theorem TypeArguments.exists_forms : ∀ (a : TypeArguments) (left : Bool), ∃ parts : List TypeArgument, parts ≠ [] ∧
    (∀ part ∈ parts, TypeForm part.written part.canonical) ∧ argumentList parts = gap left ++ a.text ∧
      Text.join ", " (parts.map TypeArgument.canonical) = a.text
  | .one t, left => by
    refine ⟨[⟨left, t.text, t.text, false⟩], by simp, List.forall_mem_singleton.2 t.form, ?_, ?_⟩
    · simp [argumentList, TypeArgument.text, Text.join, TypeArguments.text, gap]
    · simp [Text.join, TypeArguments.text]
  | .more t rest, left => by
    obtain ⟨parts, filled, each, written, canonical⟩ := TypeArguments.exists_forms rest true
    obtain ⟨first, others, rfl⟩ := List.exists_cons_of_ne_nil filled
    refine ⟨⟨left, t.text, t.text, false⟩ :: first :: others, by simp, List.forall_mem_cons.2 ⟨t.form, each⟩, ?_, ?_⟩
    · rw [argumentList_cons, written]
      simp [TypeArgument.text, TypeArguments.text, gap]
    · rw [List.map_cons, List.map_cons, Text.join_cons, ← List.map_cons, canonical]
      rfl

end

/-- a property of texts that names have and that each way to build a type keeps -/
structure TypeProperty (p : Text → Prop) : Prop where
  name (n : Name) : p n.text
  generic {n : Name} {arguments : Text} : p arguments → p (n.text ++ '<' :: (arguments ++ ['>']))
  array {t : Text} : p t → p (t ++ ['[', ']'])
  nullable {t : Text} : p t → p (t ++ ['?'])
  more {t rest : Text} : p t → p rest → p (t ++ ',' :: ' ' :: rest)

mutual

theorem TypeProperty.type {p : Text → Prop} (h : TypeProperty p) : ∀ t : TypeExpr, p t.text
  | .name n => h.name n
  | .generic _ arguments => h.generic (h.arguments arguments)
  | .array element => h.array (h.type element)
  | .nullable t => h.nullable (h.type t)

theorem TypeProperty.arguments {p : Text → Prop} (h : TypeProperty p) : ∀ a : TypeArguments, p a.text
  | .one t => h.type t
  | .more t rest => h.more (h.type t) (h.arguments rest)

end

/-- A test on characters that names and the marks of types pass holds all over the text of a type. -/
theorem typeProperty_all {p : Char → Prop} (name : ∀ c, nameChar c = true → p c)
    (marks : ∀ c ∈ (['<', '>', '[', ']', '?', ',', ' '] : Text), p c) : TypeProperty fun t => ∀ c ∈ t, p c where
  name n c hc := name c (n.all_nameChar c hc)
  generic {n arguments} inside c hc := by
    rcases List.mem_append.1 hc with hc | hc
    · exact name c (n.all_nameChar c hc)
    · simp only [List.mem_cons, List.mem_append, List.not_mem_nil, or_false] at hc
      rcases hc with rfl | hc | rfl
      · exact marks _ (by simp)
      · exact inside c hc
      · exact marks _ (by simp)
  array inside c hc := by
    simp only [List.mem_append, List.mem_cons, List.not_mem_nil, or_false] at hc
    rcases hc with hc | rfl | rfl
    · exact inside c hc
    · exact marks _ (by simp)
    · exact marks _ (by simp)
  nullable inside c hc := by
    simp only [List.mem_append, List.mem_cons, List.not_mem_nil, or_false] at hc
    rcases hc with hc | rfl
    · exact inside c hc
    · exact marks _ (by simp)
  more first rest c hc := by
    simp only [List.mem_append, List.mem_cons] at hc
    rcases hc with hc | rfl | rfl | hc
    · exact first c hc
    · exact marks _ (by simp)
    · exact marks _ (by simp)
    · exact rest c hc

namespace TypeExpr

variable (t : TypeExpr)

theorem all_typeChar : ∀ c ∈ t.text, typeChar c = true :=
  (typeProperty_all (fun c hc => by simp [typeChar, hc]) (Text.forall_of_all (by decide))).type t

theorem tidy : tidyType t.text = t.text := t.form.tidyType_eq

theorem spaced (afterBlank : Bool) : Text.spaced afterBlank t.text = true := t.form.spaced afterBlank

/-- The square brackets of a type pair up. -/
theorem paired : Paired '[' ']' t.text := by
  have name (n : Name) : Paired '[' ']' n.text :=
    Paired.of_free fun c hc => ⟨ne_of_test (n.all_nameChar c hc) (by decide), ne_of_test (n.all_nameChar c hc) (by decide)⟩
  exact TypeProperty.type
    { name := name
      generic := fun {n _} inside =>
        (name n).append ((inside.append (Paired.of_free (Text.forall_of_all (by decide)))).cons (by decide) (by decide))
      array := fun inside => inside.append (Paired.group (t := []) (by decide) rfl)
      nullable := fun inside => inside.append (Paired.of_free (Text.forall_of_all (by decide)))
      more := fun first rest => first.append ((rest.cons (by decide) (by decide)).cons (by decide) (by decide)) } t

theorem evenMark_of_nameChar {c : Char} (h : nameChar c = true) : Splitter.evenMark true c = true := by
  simp [Splitter.evenMark, opens, closes, ne_of_test h (d := '"') (by decide), ne_of_test h (d := '\'') (by decide),
    ne_of_test h (d := '(') (by decide), ne_of_test h (d := '[') (by decide), ne_of_test h (d := '\x7b') (by decide),
    ne_of_test h (d := '<') (by decide), ne_of_test h (d := ')') (by decide), ne_of_test h (d := ']') (by decide),
    ne_of_test h (d := '\x7d') (by decide), ne_of_test h (d := '>') (by decide)]

/-- No word of a type is a keyword that may stand where a name does. -/
theorem free : ∀ word ∈ Text.runWords t.text, word ∉ keptWords := by
  have name (n : Name) : ∀ word ∈ Text.runWords n.text, word ∉ keptWords := by
    rw [n.runWords_eq, List.forall_mem_singleton]
    exact n.not_kept
  refine TypeProperty.type (p := fun t => ∀ word ∈ Text.runWords t, word ∉ keptWords) ?_ t
  exact
    { name := name
      generic := fun {n arguments} inside => by
        rw [Text.runWords_append_mark (by decide), Text.runWords_append_mark (by decide), Text.runWords_nil,
          List.append_nil]
        exact List.forall_mem_append.2 ⟨name n, inside⟩
      array := fun inside => by
        rw [Text.runWords_append_mark (by decide), Text.runWords_cons_mark (by decide), Text.runWords_nil,
          List.append_nil]
        exact inside
      nullable := fun inside => by
        rw [Text.runWords_append_mark (by decide), Text.runWords_nil, List.append_nil]
        exact inside
      more := fun first rest => by
        rw [Text.runWords_append_mark (by decide), Text.runWords_cons_mark (by decide)]
        exact List.forall_mem_append.2 ⟨first, rest⟩ }

/-- A type starts with a name, after which it ends or has a mark. -/
theorem exists_head : ∃ (n : Name) (tail : Text), t.text = n.text ++ tail ∧ ∀ c ∈ tail.head?, typeMark c = true := by
  have grow {t extra : Text} {c : Char} (mark : typeMark c = true)
      (h : ∃ (n : Name) (tail : Text), t = n.text ++ tail ∧ ∀ c ∈ tail.head?, typeMark c = true) :
      ∃ (n : Name) (tail : Text), t ++ c :: extra = n.text ++ tail ∧ ∀ c ∈ tail.head?, typeMark c = true := by
    obtain ⟨n, tail, rfl, marked⟩ := h
    refine ⟨n, tail ++ c :: extra, List.append_assoc .., ?_⟩
    cases tail with
    | nil => simpa using mark
    | cons d ds => simpa using marked
  exact TypeProperty.type
    (p := fun t => ∃ (n : Name) (tail : Text), t = n.text ++ tail ∧ ∀ c ∈ tail.head?, typeMark c = true)
    { name := fun n => ⟨n, [], (List.append_nil _).symm, by simp⟩
      generic := fun {n arguments} _ => ⟨n, _, rfl, by simp [typeMark]⟩
      array := grow (by decide)
      nullable := grow (by decide)
      more := fun first _ => grow (by decide) first } t

theorem exists_start : ∃ c cs, t.text = c :: cs ∧ identifierStart c = true := by
  obtain ⟨n, tail, e, -⟩ := t.exists_head
  obtain ⟨c, cs, start, letter⟩ := n.exists_start
  exact ⟨c, cs ++ tail, by rw [e, start, List.cons_append], letter⟩

/-- The first word of a type is no keyword. -/
theorem exists_word : ∃ word rest, Text.words t.text = word :: rest ∧ word ∉ keptWords := by
  obtain ⟨n, tail, e, marked⟩ := t.exists_head
  rw [e]
  exact n.identifier.bare.exists_word (fun d hd => .inr (marked d hd)) (by decide) n.not_kept

end TypeExpr

end Rendered

end EndpointSurvey
