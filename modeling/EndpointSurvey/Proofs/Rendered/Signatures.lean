/-
The signature of an action as it is rendered, read back: its modifier, type and name, and the entries of its parameter
list.

Main statements: `signature?_signature` and `parameterList_parameters`.
-/
import EndpointSurvey.Proofs.Rendered.Attributes
import EndpointSurvey.Proofs.Rendered.ParameterLists

namespace EndpointSurvey

namespace Rendered

theorem Name.without (n : Name) : Text.Without keptWords n.text := by
  rw [Text.Without, n.runWords_eq, List.forall_mem_singleton]
  exact n.not_kept

/-! ## One parameter -/

namespace Declared

variable (p : Declared)

theorem all_typeChar : ∀ c ∈ p.text, typeChar c = true := by
  intro c hc
  rcases List.mem_append.1 hc with hc | hc
  · exact p.type.all_typeChar c hc
  · rcases List.mem_cons.1 hc with rfl | hc
    · decide
    · simp [typeChar, p.name.all_nameChar c hc]

/-- the parameter among all those that may stand in a list: without attributes, in the canonical spelling -/
def listed : ListedParameter := ⟨none, p.type.text, p.type.text, p.type.form, p.name.identifier, none⟩

theorem text_listed : p.listed.text = p.text := List.append_nil _

theorem spaced (afterBlank : Bool) : Text.spaced afterBlank p.text = true := p.listed.spaced_declaration afterBlank

theorem paired : Paired '[' ']' p.text :=
  p.type.paired.append ((Paired.of_free fun c hc => ⟨ne_of_test (p.name.all_nameChar c hc) (by decide),
    ne_of_test (p.name.all_nameChar c hc) (by decide)⟩).cons (by decide) (by decide))

theorem without : Text.Without keptWords p.text := Text.Without.append_mark (by decide) p.type.free p.name.without

theorem exists_start : ∃ c cs, p.text = c :: cs ∧ identifierStart c = true := by
  obtain ⟨c, cs, e, start⟩ := p.type.exists_start
  exact ⟨c, cs ++ ' ' :: p.name.text, by rw [text, e, List.cons_append], start⟩

theorem ne_nil : p.text ≠ [] := by
  obtain ⟨c, cs, e, -⟩ := p.exists_start
  rw [e]
  exact List.cons_ne_nil c cs

end Declared

theorem trailingIdentifier?_declared (before : Text) (n : Name) :
    Text.trailingIdentifier? (before ++ ' ' :: n.text) = some (before ++ [' '], n.text) :=
  n.identifier.trailingIdentifier?_behind before

theorem getLast?_named (before : Text) (n : Name) : ∀ c ∈ (before ++ ' ' :: n.text).getLast?, nameChar c = true := by
  intro c hc
  have last : c ∈ n.text.getLast? := by
    rw [List.getLast?_append, List.getLast?_cons] at hc
    cases e : n.text.getLast? with
    | none => exact absurd (List.getLast?_eq_none_iff.1 e) n.ne_nil
    | some d => simpa [e] using hc
  exact n.all_nameChar c (List.mem_of_getLast? last)

/-- The words of a type and a name, none of them at their front a keyword. -/
theorem words_declared (t : TypeExpr) (n : Name) :
    ∃ word rest, Text.words (t.text ++ ' ' :: n.text) = word :: (rest ++ [n.text]) ∧ word ∉ keptWords ∧
      Text.join " " (word :: (rest ++ [n.text])) = t.text ++ ' ' :: n.text := by
  obtain ⟨word, rest, e, free⟩ := t.exists_word
  have words : Text.words (t.text ++ ' ' :: n.text) = word :: (rest ++ [n.text]) := by
    rw [Text.words_append_blank (by decide), e, n.words_eq]
    rfl
  have whole : Text.collapse (t.text ++ ' ' :: n.text) = t.text ++ ' ' :: n.text :=
    Text.collapse_spaced (Declared.spaced ⟨t, n⟩ true)
  rw [Text.collapse, words] at whole
  exact ⟨word, rest, words, free, whole⟩

theorem codeMark_of_typeChar {c : Char} (h : typeChar c = true) : codeMark c = true := by
  simp [codeMark, Lexeme.quoteMark, ne_of_test h (d := '/') (by decide), ne_of_test h (d := '#') (by decide),
    ne_of_test h (d := '"') (by decide), ne_of_test h (d := '\'') (by decide), ne_of_test h (d := '@') (by decide),
    ne_of_test h (d := '$') (by decide)]

/-- **The parameters of a list are read back** in order. -/
theorem parameterList_parameters (ps : List Declared) :
    parameterList (Text.join ", " (ps.map Declared.text)) = ps.map Declared.raw := by
  cases ps with
  | nil => exact parameterList_nil
  | cons p ps =>
    have split : splitTop ',' true (Text.join ", " ((p :: ps).map Declared.text)) = (p :: ps).map Declared.text := by
      refine splitTop_join (by simp) ?_ ?_
      all_goals rw [List.forall_mem_map]
      · intro q _
        rw [← q.text_listed]
        exact ⟨q.listed.onePiece_text (by simp [ListedParameter.raw, Declared.listed]), q.listed.trim_text⟩
      · exact fun q _ => q.ne_nil
    have each : RawParameter.ofText? ∘ Declared.text = some ∘ Declared.raw := funext fun q => by
      rw [Function.comp_apply, ← q.text_listed, q.listed.ofText?_text]
      rfl
    rw [parameterList, split, List.filterMap_map, each, List.filterMap_eq_map]

/-! ## A whole signature -/

/-- a character of a signature -/
def signatureChar (c : Char) : Bool := typeChar c || c == '(' || c == ')'

namespace Action

variable (a : Action)

/-- the text of the parameter list -/
def listText : Text := Text.join ", " (a.parameters.map Declared.text)

/-- what stands in front of the parameter list -/
def opening : Text := "public " ++ (a.returnType.text ++ ' ' :: a.name.text)

theorem signature_eq : a.signature = a.opening ++ '(' :: (a.listText ++ [')']) := by
  unfold signature declaration opening listText
  rw [List.append_assoc, List.append_assoc]
  simp only [List.cons_append]

theorem all_listText : ∀ c ∈ a.listText, typeChar c = true := by
  refine Text.forall_mem_join (Text.forall_of_all (by decide)) ?_
  rw [List.forall_mem_map]
  exact fun p _ => p.all_typeChar

theorem all_opening : ∀ c ∈ a.opening, typeChar c = true := by
  intro c hc
  rcases List.mem_append.1 hc with hc | hc
  · exact (Text.forall_of_all (by decide) : ∀ c ∈ ("public ".toList), typeChar c = true) c hc
  · exact Declared.all_typeChar ⟨a.returnType, a.name⟩ c hc

theorem all_signature : ∀ c ∈ a.signature, signatureChar c = true := by
  intro c hc
  rw [signature_eq, List.mem_append, List.mem_cons, List.mem_append, List.mem_singleton] at hc
  rcases hc with hc | rfl | hc | rfl
  · simp [signatureChar, a.all_opening c hc]
  · rfl
  · simp [signatureChar, a.all_listText c hc]
  · rfl

section
variable {words : List Text}

/-- No word of a signature up to its list is a keyword, its modifier aside. -/
theorem without_opening (sub : words ⊆ keptWords) (other : ("public" : Text) ∉ words) : Text.Without words a.opening := by
  show Text.Without words ("public".toList ++ ' ' :: Declared.text ⟨a.returnType, a.name⟩)
  exact (Text.Without.single (by decide) (Text.forall_of_all (by decide)) other).append_mark (by decide)
    ((Declared.without _).mono sub)

theorem without_listText (sub : words ⊆ keptWords) : Text.Without words a.listText := by
  rw [listText]
  induction a.parameters with
  | nil => exact Text.Without.of_marks (by simp [Text.join])
  | cons p ps ih =>
    have first := p.without.mono sub
    cases ps with
    | nil => simpa [Text.join] using first
    | cons q ps =>
      rw [List.map_cons, List.map_cons, Text.join_cons]
      exact first.append_mark (by decide) (ih.cons_mark (by decide))

theorem without_signature (sub : words ⊆ keptWords) (other : ("public" : Text) ∉ words) :
    Text.Without words a.signature := by
  rw [signature_eq]
  exact (a.without_opening sub other).append_mark (by decide)
    ((a.without_listText sub).append_marks (Text.forall_of_all (by decide)))

end

theorem codeMark_signature : ∀ c ∈ a.signature, codeMark c = true := by
  intro c hc
  have h := a.all_signature c hc
  simp only [signatureChar, Bool.or_eq_true, beq_iff_eq] at h
  rcases h with (h | rfl) | rfl
  · exact codeMark_of_typeChar h
  · decide
  · decide

theorem mask_signature (literals : Bool) : mask literals a.signature = a.signature :=
  (masks_plain a.codeMark_signature literals).mask_eq

theorem not_paren_opening : ∀ c ∈ a.opening, (c != '(') = true := fun c hc => by
  simp [ne_of_test (a.all_opening c hc) (d := '(') (by decide)]

theorem words_opening : ∃ word rest, Text.words a.opening = ("public" : Text) :: word :: (rest ++ [a.name.text]) ∧
    word ∉ keptWords ∧ Text.join " " (word :: (rest ++ [a.name.text])) = a.returnType.text ++ ' ' :: a.name.text := by
  obtain ⟨word, rest, words, free, joined⟩ := words_declared a.returnType a.name
  refine ⟨word, rest, ?_, free, joined⟩
  show Text.words ("public".toList ++ ' ' :: (a.returnType.text ++ ' ' :: a.name.text)) = _
  rw [Text.words_append_blank (by decide), words, Text.words_single (by decide) (Text.forall_of_all (by decide))]
  rfl

theorem trim_opening : Text.trim a.opening = a.opening := by
  refine Text.trim_ends (fun c hc => ?_) fun c hc => ?_
  · cases hc
    decide
  · refine not_blank_of_nameChar (getLast?_named ("public " ++ a.returnType.text) a.name c ?_)
    rw [List.append_assoc]
    exact hc

theorem dropTypeArguments_opening : dropTypeArguments a.opening = a.opening := by
  rw [dropTypeArguments]
  split
  · next rest e =>
    have last : a.opening.getLast? = some '>' := by rw [← List.head?_reverse, e]; rfl
    have name := getLast?_named ("public " ++ a.returnType.text) a.name '>' (by rw [List.append_assoc]; exact last)
    cases name
  · rfl

/-- **A signature is read back**: one modifier, the type and the name, and the text of the parameter list. -/
theorem signature?_signature : signature? a.signature = some ⟨a.name.text, a.returnType.text, a.listText, ["public"]⟩ := by
  obtain ⟨word, rest, words, free, joined⟩ := a.words_opening
  have front : methodModifiers.contains word = false := by
    rw [List.contains_eq_mem, decide_eq_false_iff_not]
    exact fun hw => free (by simp [keptWords, hw])
  have start : a.signature.takeWhile (· != '(') = a.opening := by
    rw [signature_eq, Text.takeWhile_append_stop (by decide), List.takeWhile_eq_self_iff.2 a.not_paren_opening]
  have inside : ∀ c ∈ a.listText, c ≠ '(' ∧ c ≠ ')' := fun c hc =>
    ⟨ne_of_test (a.all_listText c hc) (by decide), ne_of_test (a.all_listText c hc) (by decide)⟩
  have closing : closing? '(' ')' (a.signature.drop a.opening.length) = some (a.listText.length + 1) := by
    rw [signature_eq, List.drop_left]
    exact (closing?_eq_some_iff (by decide)).2 ⟨a.listText, [], rfl, rfl, nesting_of_free inside 0⟩
  have before : a.signature.take a.opening.length = a.opening := by rw [signature_eq, List.take_left]
  have list : (a.signature.drop (a.opening.length + 1)).take (a.listText.length + 1 - 1) = a.listText := by
    rw [signature_eq, ← List.drop_drop, List.drop_left, List.drop_succ_cons, List.drop_zero, Nat.add_sub_cancel,
      List.take_left]
  have modifiers : (("public" : Text) :: word :: (rest ++ [a.name.text])).takeWhile (methodModifiers.contains ·) =
      [("public" : Text)] := by
    rw [List.takeWhile_cons_of_pos (by decide), List.takeWhile_cons_of_neg (by rw [front]; exact Bool.false_ne_true)]
  have long : ¬ (word :: (rest ++ [a.name.text])).length < 2 := by simp
  simp only [signature?, mask_signature, start, closing, before, trim_opening, dropTypeArguments_opening, words, modifiers,
    list, Option.bind_eq_bind, Option.bind_some, List.length_singleton, List.drop_succ_cons, List.drop_zero, if_neg long,
    joined, trailingIdentifier?_declared, a.returnType.form.trim_append_space, a.returnType.form.isEmpty_eq,
    Bool.false_eq_true, if_false, a.returnType.tidy]

theorem spaced_listText (afterBlank : Bool) (filled : a.parameters ≠ []) : Text.spaced afterBlank a.listText = true := by
  have parts : ∀ (ps : List Declared) (p : Declared) (afterBlank : Bool),
      Text.spaced afterBlank (Text.join ", " ((p :: ps).map Declared.text)) = true := by
    intro ps
    induction ps with
    | nil => simpa [Text.join] using Declared.spaced
    | cons q ps ih =>
      intro p afterBlank
      rw [List.map_cons, List.map_cons, Text.join_cons, Text.spaced_append (p.spaced afterBlank)]
      exact ih q true
  obtain ⟨p, ps, e⟩ := List.exists_cons_of_ne_nil filled
  rw [listText, e]
  exact parts ps p afterBlank

theorem spaced_opening : Text.spaced true a.opening = true := by
  show Text.spaced true ("public".toList ++ ' ' :: Declared.text ⟨a.returnType, a.name⟩) = true
  rw [Text.spaced_append (by decide), Text.spaced, if_pos (by decide), Declared.spaced ⟨a.returnType, a.name⟩ true]
  rfl

theorem spaced_signature : Text.spaced true a.signature = true := by
  rw [signature_eq, Text.spaced_append a.spaced_opening, Text.spaced, if_neg (by decide)]
  by_cases none : a.parameters = []
  · rw [listText, none]
    decide
  · rw [Text.spaced_append (a.spaced_listText false none)]
    rfl

/-- A signature is on one line as it is, whatever blanks follow it. -/
theorem collapse_signature (gap : Blanks) : (mask false (a.signature ++ gap.text)).collapse = a.signature := by
  have blanks : ∀ c ∈ gap.text, blank c = true := List.all_eq_true.1 gap.blank
  have code : mask false (a.signature ++ gap.text) = a.signature ++ gap.text :=
    (masks_plain (List.forall_mem_append.2 ⟨a.codeMark_signature, fun c hc => codeMark_of_blank (blanks c hc)⟩)
      false).mask_eq
  rw [code, Text.collapse, Text.words_append_blanks blanks]
  exact Text.collapse_spaced a.spaced_signature

end Action

end Rendered

end EndpointSurvey
