/-
An attribute with a regular string as it is rendered, read back: its code is a bracketed group without inner brackets,
and the group holds one attribute whose argument is what the string is taken for.

Main statements: `masks_attributeForm`, `closing?_attributeForm` and `attributesOf_attributeForm`.
-/
import EndpointSurvey.Proofs.Attribute.GroupLines
import EndpointSurvey.Proofs.Rendered.Literal
import EndpointSurvey.Proofs.Rendered.Types

namespace EndpointSurvey.Rendered

/-- a name that an attribute bears as it is written, and that is no word for what an attribute applies to -/
structure MarkName (name : Text) : Prop where
  start : ∃ c cs, name = c :: cs ∧ identifierStart c = true
  word : ∀ c ∈ name, nameChar c = true
  short : Attribute.shortName name = name
  target : ∀ rest, Attribute.afterTarget? (name ++ '(' :: rest) = none

theorem markName_route : MarkName "Route" :=
  ⟨⟨'R', "oute", rfl, rfl⟩, Text.forall_of_all (by decide), by decide, fun _ => rfl⟩

theorem markName_verb (v : Verb) : MarkName v.attributeName := by
  cases v with
  | get => exact ⟨⟨'H', "ttpGet", rfl, rfl⟩, Text.forall_of_all (by decide), by decide, fun _ => rfl⟩
  | post => exact ⟨⟨'H', "ttpPost", rfl, rfl⟩, Text.forall_of_all (by decide), by decide, fun _ => rfl⟩
  | put => exact ⟨⟨'H', "ttpPut", rfl, rfl⟩, Text.forall_of_all (by decide), by decide, fun _ => rfl⟩
  | delete => exact ⟨⟨'H', "ttpDelete", rfl, rfl⟩, Text.forall_of_all (by decide), by decide, fun _ => rfl⟩
  | patch => exact ⟨⟨'H', "ttpPatch", rfl, rfl⟩, Text.forall_of_all (by decide), by decide, fun _ => rfl⟩
  | head => exact ⟨⟨'H', "ttpHead", rfl, rfl⟩, Text.forall_of_all (by decide), by decide, fun _ => rfl⟩
  | options => exact ⟨⟨'H', "ttpOptions", rfl, rfl⟩, Text.forall_of_all (by decide), by decide, fun _ => rfl⟩

/-! ## The code of an attribute -/

theorem codeMark_of_nameChar {c : Char} (h : nameChar c = true) : codeMark c = true := by
  simp [codeMark, Lexeme.quoteMark, ne_of_test h (d := '/') (by decide), ne_of_test h (d := '#') (by decide),
    ne_of_test h (d := '"') (by decide), ne_of_test h (d := '\'') (by decide), ne_of_test h (d := '@') (by decide),
    ne_of_test h (d := '$') (by decide)]

variable {name : Text} {l : Literal}

theorem masks_attributeForm (mark : MarkName name) :
    Masks true (attributeForm name l.body) (attributeForm name (Lexeme.blankOut l.body)) := by
  have front : Masks true ('[' :: (name ++ ['('])) ('[' :: (name ++ ['('])) :=
    masks_plain (by
      simp only [List.mem_cons, List.mem_append, List.not_mem_nil, or_false, forall_eq_or_imp]
      refine ⟨by decide, fun c hc => ?_⟩
      rcases hc with hc | rfl
      · exact codeMark_of_nameChar (mark.word c hc)
      · decide) true
  have tail : Masks true [')', ']'] [')', ']'] := masks_plain (Text.forall_of_all (by decide)) true
  have whole := front.append (masks_literal (l.closedBody) (by decide) tail)
  simpa [attributeForm] using whole

theorem length_attributeForm (name literal : Text) :
    (attributeForm name literal).length = name.length + literal.length + 6 := by
  simp [attributeForm]
  omega

/-- what stands between the brackets -/
def content (name literal : Text) : Text := name ++ '(' :: '"' :: (literal ++ ['"', ')'])

theorem attributeForm_eq (name literal : Text) : attributeForm name literal = '[' :: (content name literal ++ [']']) := by
  simp [attributeForm, content]

theorem mem_content (mark : MarkName name) {count : Nat} {c : Char}
    (h : c ∈ content name (List.replicate count ' ')) : nameChar c = true ∨ c ∈ (['(', '"', ' ', ')'] : Text) := by
  simp only [content, List.mem_append, List.mem_cons, List.mem_replicate, List.not_mem_nil, or_false] at h ⊢
  rcases h with hc | rfl | rfl | ⟨-, rfl⟩ | rfl | rfl
  · exact .inl (mark.word c hc)
  all_goals simp

/-- A character that an attribute with blank argument has none of. -/
theorem ne_of_mem_content (mark : MarkName name) {count : Nat} {c d : Char}
    (h : c ∈ content name (List.replicate count ' ')) (hd : nameChar d = false)
    (other : d ∉ (['(', '"', ' ', ')'] : Text)) : c ≠ d := by
  rcases mem_content mark h with hc | hc
  · exact ne_of_test hc hd
  · rintro rfl
    exact other hc

/-- The code of an attribute is one group, without brackets inside. -/
theorem closing?_attributeForm (mark : MarkName name) (count : Nat) (rest : Text) :
    closing? '[' ']' (attributeForm name (List.replicate count ' ') ++ rest) = some (name.length + count + 5) := by
  have inside : ∀ c ∈ content name (List.replicate count ' '), c ≠ '[' ∧ c ≠ ']' := fun c hc =>
    ⟨ne_of_mem_content mark hc (by decide) (by decide), ne_of_mem_content mark hc (by decide) (by decide)⟩
  rw [attributeForm_eq, List.cons_append, List.append_assoc]
  refine (closing?_eq_some_iff (by decide)).2 ⟨_, rest, rfl, ?_, nesting_of_free inside 0⟩
  simp [content]
  omega

theorem paired_square (mark : MarkName name) (count : Nat) :
    Paired '[' ']' (attributeForm name (List.replicate count ' ')) := by
  rw [attributeForm_eq]
  exact Paired.group (by decide) (Paired.of_free fun c hc =>
    ⟨ne_of_mem_content mark hc (by decide) (by decide), ne_of_mem_content mark hc (by decide) (by decide)⟩)

theorem paired_round (mark : MarkName name) (count : Nat) :
    Paired '(' ')' (attributeForm name (List.replicate count ' ')) := by
  have quoted : Paired '(' ')' ('"' :: (List.replicate count ' ' ++ ['"'])) :=
    Paired.of_free fun c hc => by
      simp only [List.mem_cons, List.mem_append, List.mem_replicate, List.not_mem_nil, or_false] at hc
      rcases hc with rfl | ⟨-, rfl⟩ | rfl <;> decide
  have named : Paired '(' ')' name := Paired.of_free fun c hc =>
    ⟨ne_of_test (mark.word c hc) (by decide), ne_of_test (mark.word c hc) (by decide)⟩
  have whole := (named.append (Paired.group (by decide) quoted)).append
    (Paired.of_free (t := [']']) (Text.forall_of_all (by decide)))
  have shape : attributeForm name (List.replicate count ' ') =
      '[' :: ((name ++ '(' :: ('"' :: (List.replicate count ' ' ++ ['"']) ++ [')'])) ++ [']']) := by simp [attributeForm]
  rw [shape]
  exact whole.cons (by decide) (by decide)

/-- A character that no attribute with blank argument has. -/
theorem ne_of_mem_attributeForm (mark : MarkName name) {count : Nat} {c d : Char}
    (h : c ∈ attributeForm name (List.replicate count ' ')) (hd : nameChar d = false)
    (other : d ∉ (['[', '(', '"', ' ', ')', ']'] : Text)) : c ≠ d := by
  rw [attributeForm_eq, List.mem_cons, List.mem_append, List.mem_singleton] at h
  simp only [List.mem_cons, not_or] at other
  rcases h with rfl | h | rfl
  · exact Ne.symm other.1
  · exact ne_of_mem_content mark h hd (by simp [other])
  · exact Ne.symm other.2.2.2.2.2.1

/-! ## The attribute read -/

theorem splitTop_whole {t : Text} {s : Splitter} {angle : Bool}
    (passes : Splitter.start.passes? ',' angle t = some s) (filled : t ≠ [])
    (first : ∀ c ∈ t.head?, blank c = false) (last : ∀ c ∈ t.getLast?, blank c = false) :
    splitTop ',' angle t = [t] := by
  have whole : segmentsFrom ',' angle .start (t ++ []) = [t ++ []] := Splitter.segmentsFrom_passes passes rfl
  rw [List.append_nil] at whole
  rw [splitTop, segments, whole]
  simp [Text.trim_ends first last, filled]

theorem head?_content (mark : MarkName name) (literal : Text) :
    ∀ c ∈ (content name literal).head?, blank c = false := by
  obtain ⟨c, cs, rfl, -⟩ := mark.start
  simpa [content] using not_blank_of_nameChar (mark.word c List.mem_cons_self)

theorem getLast?_content (name literal : Text) : (content name literal).getLast? = some ')' := by
  rw [show content name literal = (name ++ '(' :: '"' :: (literal ++ ['"'])) ++ [')'] by simp [content],
    List.getLast?_concat]

theorem passes?_content (mark : MarkName name) :
    ∃ s, Splitter.start.passes? ',' false (content name l.body) = some s := by
  have even : ∀ c ∈ name, Splitter.evenMark false c = true := fun c hc => by
    have := TypeExpr.evenMark_of_nameChar (mark.word c hc)
    simp_all [Splitter.evenMark, opens, closes]
  have comma : ',' ∉ name := fun hc => ne_of_test (mark.word _ hc) (d := ',') (by decide) rfl
  have level : Splitter.Level ',' false 0 name := Splitter.level_even even (.inr comma)
  obtain ⟨before, named⟩ := level none
  have opened : Splitter.passes? ',' false ⟨.outside, 0, before⟩ ['('] = some ⟨.outside, 1, '('⟩ := by
    simp [Splitter.passes?, Splitter.cutsAt, Splitter.step, Splitter.stepOutside, opens]
  have quoted : Splitter.passes? ',' false ⟨.outside, 1, some '('⟩ ('"' :: (l.body ++ ['"'])) = _ :=
    l.passes?_quoted 1 (by decide)
  have whole : content name l.body = name ++ (['('] ++ ('"' :: (l.body ++ ['"']) ++ [')'])) := by simp [content]
  refine ⟨⟨.outside, 0, ')'⟩, ?_⟩
  rw [whole, Splitter.passes?_append, Splitter.start, named, Option.bind_some, Splitter.passes?_append, opened,
    Option.bind_some, Splitter.passes?_append, quoted]
  rfl

theorem nameAndArguments?_content (mark : MarkName name) (literal : Text) :
    Attribute.nameAndArguments? (content name literal) = some (name, '"' :: literal ++ ['"']) := by
  obtain ⟨c, cs, rfl, start⟩ := mark.start
  have dotted : ∀ x ∈ cs, dottedChar x = true := fun x hx => by
    rw [dottedChar, wordChar_of_nameChar (mark.word x (List.mem_cons_of_mem c hx)), Bool.true_or]
  have paren : dottedChar '(' = false := by decide
  have list : '"' :: (literal ++ ['"', ')']) = ('"' :: literal ++ ['"']) ++ [')'] := by simp
  simp only [Attribute.nameAndArguments?, content, List.cons_append, start, Bool.true_or, if_true,
    Text.takeWhile_append_stop paren, Text.dropWhile_append_stop paren, List.takeWhile_eq_self_iff.2 dotted,
    List.dropWhile_eq_nil_iff.2 dotted, List.nil_append]
  rw [List.dropWhile_cons_of_neg (by decide)]
  simp only [Attribute.afterTypeArguments?, List.head?_cons, Option.some.injEq, show '(' ≠ '<' by decide, if_false,
    Option.bind_eq_bind, Option.bind_some, list, List.getLast?_concat, List.dropLast_concat, if_true]
  rfl

theorem ofPart?_content (mark : MarkName name) :
    Attribute.ofPart? (content name l.body) = some ⟨name, [l.reading], [], content name l.body⟩ := by
  have target : Attribute.afterTarget? (content name l.body) = none := mark.target _
  have filled : (content name l.body).isEmpty = false := by simp [content]
  have list : splitTop ',' false ('"' :: l.body ++ ['"']) = ['"' :: l.body ++ ['"']] :=
    splitTop_whole (l.passes?_quoted 0 (by decide)) (by simp)
      (by rintro c ⟨⟩; decide) (by rw [List.getLast?_concat]; rintro c ⟨⟩; decide)
  have argument : Attribute.Argument.ofText ('"' :: l.body ++ ['"']) = .positional l.reading := by
    rw [Attribute.Argument.ofText, stringLiteral?_quoted, literalValue_of_string, l.unescape_body]
  have written : ('"' :: l.body ++ ['"']).all blank = false := by simp; exact fun b => absurd b (by decide)
  simp only [Attribute.ofPart?, target, Option.getD_none, filled, Bool.false_eq_true, if_false, Attribute.ofEntry?,
    nameAndArguments?_content mark, Option.map_some, written, list, List.map_cons, List.map_nil, argument, mark.short]
  rfl

/-- **An attribute is read back** with its name and what its string is taken for. -/
theorem attributesOf_attributeForm (mark : MarkName name) :
    attributesOf (attributeForm name l.body) = [⟨name, [l.reading], [], content name l.body⟩] := by
  have code : mask true (attributeForm name l.body) = attributeForm name (List.replicate l.body.length ' ') := by
    rw [(masks_attributeForm mark).mask_eq, l.blankOut_body]
  have closing := closing?_attributeForm mark l.body.length []
  rw [List.append_nil, ← code] at closing
  have groups := (groups_of_closed (s := Source.ofText (attributeForm name l.body))
    (by rw [Source.code_ofText, code]; rfl) closing).2
  have rest := (groups_of_nil (s := (Source.ofText (attributeForm name l.body)).drop
    (name.length + l.body.length + 5 + 1)) (by
      rw [Source.code_drop, Source.code_ofText, code, List.drop_eq_nil_iff, length_attributeForm]
      simp)).2
  have group : ((Source.ofText (attributeForm name l.body)).slice 1 (name.length + l.body.length + 5)).raw =
      content name l.body := by
    rw [Source.raw_slice, Source.raw_ofText, attributeForm_eq, List.drop_succ_cons, List.drop_zero]
    exact List.take_left' (by simp [content]; omega)
  obtain ⟨s, passes⟩ := passes?_content mark
  have one := splitTop_whole passes (by simp [content]) (head?_content mark _)
    (by rw [getLast?_content]; rintro c ⟨⟩; decide)
  rw [attributesOf, groups, rest, group]
  rw [List.flatMap_cons, List.flatMap_nil, one, List.append_nil, List.filterMap_cons, ofPart?_content mark]
  rfl

end EndpointSurvey.Rendered
