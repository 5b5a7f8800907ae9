/-
The declaration of a rendered controller: its heading starts a declaration, the header region is what is rendered in front
of its keyword, and its body is cut at its own braces.

Main statements: `headingTail_rendered`, `Class.blockOf?_code` and `File.blocksOf_text`.
-/
import EndpointSurvey.Proofs.Declaration.Regions
import EndpointSurvey.Proofs.Rendered.Headings

namespace EndpointSurvey

/-! ## The header region -/

theorem replaceGroups_plain {t : Text} (into : Text) (free : '[' ∉ t) : replaceGroups into t = t := by
  induction t with
  | nil => rw [replaceGroups]
  | cons c cs ih =>
    rw [List.mem_cons, not_or] at free
    rw [replaceGroups, if_neg fun h => free.1 h.1.symm, ih free.2]

/-- Only a modifier stands in front of the keyword on its line. -/
theorem declarationStart_modifier {code g : Text} {offset : Nat} (blanks : ∀ c ∈ g, blank c = true)
    (line : Text.takeEnd (· != '\n') (code.take offset) = g ++ "public ") : declarationStart code offset = true := by
  have free : '[' ∉ g ++ "public ".toList := by
    rw [List.mem_append, not_or]
    exact ⟨fun hg => absurd (blanks _ hg) (by decide), by decide⟩
  have words : Text.words (g ++ "public ") = ["public".toList] := by
    show Text.words (g ++ ("public".toList ++ [' '])) = _
    rw [Text.words_blanks_append blanks, Text.words_append_blanks (Text.forall_of_all (by decide)),
      Text.words_single (by decide) (Text.forall_of_all (by decide))]
  rw [declarationStart]
  simp only [line, replaceGroups_plain _ free, words]
  decide

theorem declarationStart_public {code before : Text} {offset : Nat} (margin : Rendered.Blanks)
    (front : code.take offset = before ++ '\n' :: (margin.text ++ "public ")) : declarationStart code offset = true := by
  have shape : before ++ '\n' :: (margin.text ++ "public ") = ((before ++ ['\n']) ++ margin.text) ++ "public " := by
    simp
  have ends : ∀ c ∈ (before ++ ['\n']).getLast?, (c != '\n') = false := by
    rw [List.getLast?_concat]
    rintro c ⟨⟩
    rfl
  have inner := Text.takeEnd_append_within ends margin.text
  refine declarationStart_modifier (fun c hc => margin.all c (inner.subset hc)) ?_
  rw [front, shape, Text.takeEnd_append_of_all _ (Text.forall_of_all (by decide))]

/-! ## The rest of a heading -/

theorem bracketed_none {opener closer c : Char} {code : Text} {offset : Nat} (head : (code.drop offset).head? = some c)
    (other : c ≠ opener) : bracketed opener closer code offset = .ok (none, offset) := by
  simp [bracketed, head, other]

/-- A base type and blanks are all that a heading has after its name. -/
theorem headingTail_rendered {document : Source} {offset : Nat} {rest : Text} (name : Text) (gap : Rendered.Blanks)
    (code : document.code.drop offset = " : ControllerBase".toList ++ (gap.text ++ '\x7b' :: rest)) :
    ∃ tail, headingTail document name offset = .ok tail ∧
      tail.stop = offset + (" : ControllerBase".toList ++ gap.text).length := by
  have shape : document.code.drop (offset + 1) = (": ControllerBase".toList ++ gap.text) ++ '\x7b' :: rest := by
    rw [← List.drop_drop, code, List.append_assoc]
    rfl
  have skipped : skipBlanks document.code offset = offset + 1 := by
    have lead : Text.leadingBlanks ([' '] ++ (": ControllerBase".toList ++ (gap.text ++ '\x7b' :: rest))) = 1 :=
      Text.leadingBlanks_padded (Text.forall_of_all (by decide)) (by rintro c ⟨⟩; decide)
    rw [skipBlanks, code]
    exact congrArg (offset + ·) lead
  have colon : (document.code.drop (offset + 1)).head? = some ':' := by rw [shape]; rfl
  have inside : ∀ c ∈ ": ControllerBase".toList ++ gap.text, (c != '\x7b' && c != ';') = true := by
    refine List.forall_mem_append.2 ⟨Text.forall_of_all (by decide), fun c hc => ?_⟩
    simp [gap.ne (d := '\x7b') (by decide) c hc, gap.ne (d := ';') (by decide) c hc]
  have tail : (document.code.drop (offset + 1)).takeWhile (fun c => c != '\x7b' && c != ';') =
      ": ControllerBase".toList ++ gap.text := by
    rw [shape, Text.takeWhile_append_stop (by decide), List.takeWhile_eq_self_iff.2 inside]
  have long : ¬ document.code.length ≤ offset + 1 + (": ControllerBase".toList ++ gap.text).length := by
    have := congrArg List.length shape
    rw [List.length_drop, List.length_append, List.length_cons] at this
    omega
  have stop : offset + 1 + (": ControllerBase".toList ++ gap.text).length =
      offset + (" : ControllerBase".toList ++ gap.text).length := by
    rw [List.length_append, List.length_append]
    have : " : ControllerBase".toList.length = ": ControllerBase".toList.length + 1 := by decide
    omega
  refine ⟨⟨[], none, baseTypesOf (": ControllerBase".toList ++ gap.text), _⟩, ?_, stop⟩
  simp only [headingTail, skipped, bracketed_none colon (show ':' ≠ '<' by decide), Except.mapError, bind,
    Except.bind, Option.isSome_none, Bool.false_eq_true, if_false, bracketed_none colon (show ':' ≠ '(' by decide), tail,
    if_neg long]
  rfl

namespace Rendered

namespace Class

variable (c : Class)

/-! ## The code of a class -/

theorem masks_frontForm : Masks true (c.frontForm id) c.frontCode :=
  (c.above.masks true).append ((masks_attributeForm markName_route).append ((c.below.masks true).append
    ((masks_plain (t := ['\n']) (Text.forall_of_all (by decide)) true).append ((c.margin.masks true).append
      (masks_plain (t := "public ") (Text.forall_of_all (by decide)) true)))))

theorem masks_heading : Masks true c.heading c.heading :=
  (masks_plain (t := "class ") (Text.forall_of_all (by decide)) true).append
    ((masks_plain (fun d hd => codeMark_of_nameChar (c.name.all_nameChar d hd)) true).append
      (masks_plain (t := controllerSuffix) (Text.forall_of_all (by decide)) true))

theorem masks_baseForm : Masks true c.baseForm c.baseForm :=
  (masks_plain (t := " : ControllerBase") (Text.forall_of_all (by decide)) true).append (c.gap.masks true)

theorem masks_insideForm : Masks true (c.insideForm id id) c.insideCode :=
  (masks_flatMap fun a _ => a.masks_form).append (c.bottom.masks true)

theorem masks_form : Masks true (c.form id id) c.code :=
  c.masks_frontForm.append (c.masks_heading.append (c.masks_baseForm.append
    ((masks_plain (t := ['\x7b']) (Text.forall_of_all (by decide)) true).append (c.masks_insideForm.append
      (masks_plain (t := ['\x7d']) (Text.forall_of_all (by decide)) true)))))

/-- The braces of the actions pair up between those of the class. -/
theorem bracesPair_insideCode : Paired '\x7b' '\x7d' c.insideCode :=
  (Paired.flatMap fun a _ => a.bracesPair_code).append
    (Paired.of_free fun d hd => ⟨c.bottom.ne (by decide) d hd, c.bottom.ne (by decide) d hd⟩)

theorem ne_of_mem_frontCode {d e : Char} (hd : d ∈ c.frontCode) (solid : blank e = false)
    (named : nameChar e = false) (mark : e ∉ (['[', '(', '"', ' ', ')', ']'] : Text)) : d ≠ e := by
  have feed : '\n' ≠ e := by rintro rfl; cases solid
  have space : ' ' ≠ e := by rintro rfl; cases solid
  rw [c.frontCode_eq, List.mem_append, List.mem_append, List.mem_append, List.mem_cons, List.mem_append] at hd
  rcases hd with hd | hd | hd | rfl | hd | hd
  · exact c.above.ne solid d hd
  · exact ne_of_mem_attributeForm markName_route hd named mark
  · exact c.below.ne solid d hd
  · exact feed
  · exact c.margin.ne solid d hd
  · have each : ∀ x ∈ "public ".toList, nameChar x = true ∨ x = ' ' := Text.forall_of_all (by decide)
    rcases each d hd with hd | rfl
    · exact ne_of_test hd named
    · exact space

/-! ## The declaration read -/

/-- what a declaration says of a controller -/
structure Reads (c : Class) (b : TypeBlock) : Prop where
  kind : b.kind = .classType
  name : b.name = c.fullName
  attributeText : b.attributeText = c.mark
  members : List.Forall₂ Action.Reads c.actions b.members

/-- The header region has one group, the attribute of the class. -/
theorem attributeGroups_front {region : Source} (raw : region.raw = c.frontForm id)
    (code : region.code = c.frontCode) : attributeGroups region = [c.mark] := by
  rw [c.frontCode_eq] at code
  have plain : '[' ∉ c.above.text := fun hm => c.above.ne (by decide) _ hm rfl
  have rest : '[' ∉ c.below.text ++ '\n' :: (c.margin.text ++ "public ") := by
    rw [List.mem_append, List.mem_cons, List.mem_append, not_or, not_or, not_or]
    exact ⟨fun hm => c.below.ne (by decide) _ hm rfl, by decide, fun hm => c.margin.ne (by decide) _ hm rfl, by decide⟩
  have below : (region.drop c.above.text.length).code =
      attributeForm "Route" (List.replicate c.route.body.length ' ') ++
        (c.below.text ++ '\n' :: (c.margin.text ++ "public ")) := by
    rw [Source.code_drop, code, List.drop_left]
  have closing : closing? '[' ']' (region.drop c.above.text.length).code = _ :=
    below ▸ closing?_attributeForm markName_route c.route.body.length _
  have size : c.mark.length = "Route".toList.length + c.route.body.length + 5 + 1 := length_attributeForm _ _
  have group : ((region.drop c.above.text.length).take ("Route".toList.length + c.route.body.length + 5 + 1)).raw =
      c.mark := by
    rw [Source.raw_take, Source.raw_drop, raw, frontForm, List.drop_left, ← size]
    exact List.take_left
  have after : ((region.drop c.above.text.length).drop ("Route".toList.length + c.route.body.length + 5 + 1)).code =
      c.below.text ++ '\n' :: (c.margin.text ++ "public ") := by
    rw [Source.code_drop, below]
    exact List.drop_left' (by rw [length_attributeForm, List.length_replicate])
  rw [attributeGroups_plain code plain, (groups_of_closed (by rw [below]; rfl) closing).1, group,
    attributeGroups_none (by rw [after]; exact rest)]

theorem not_mem_nonTypeNames : nonTypeNames.contains c.fullName = false := by
  have short : ∀ name ∈ nonTypeNames, name.length < controllerSuffix.length := by decide
  rw [List.contains_eq_mem, decide_eq_false_iff_not]
  intro member
  have := short _ member
  rw [fullName, List.length_append] at this
  omega

section
variable {document : Source} {before beforeCode rest restCode : Text}

theorem declaredKind?_code (code : document.code = beforeCode ++ (c.code ++ restCode)) :
    declaredKind? document.code (c.headingAt beforeCode.length) = some .classType := by
  have front : document.code.take (beforeCode.length + c.frontCode.length) =
      (beforeCode ++ (c.above.text ++ (attributeForm "Route" (List.replicate c.route.body.length ' ') ++ c.below.text))) ++
        '\n' :: (c.margin.text ++ "public ") := by
    rw [code, code_eq, List.append_assoc, ← List.append_assoc beforeCode, ← List.length_append, List.take_left,
      c.frontCode_eq]
    simp only [List.append_assoc]
  rw [declaredKind?, show (c.headingAt beforeCode.length).name = c.fullName from rfl, c.not_mem_nonTypeNames,
    show (c.headingAt beforeCode.length).start = beforeCode.length + c.frontCode.length from rfl,
    declarationStart_public c.margin front]
  rfl

theorem regionStart_code (code : document.code = beforeCode ++ (c.code ++ restCode))
    (closed : ∀ d ∈ beforeCode.getLast?, d = '\x7d') :
    regionStart document.code (c.headingAt beforeCode.length) = beforeCode.length := by
  have front : document.code.take (c.headingAt beforeCode.length).start = beforeCode ++ c.frontCode := by
    rw [code, code_eq, List.append_assoc, ← List.append_assoc beforeCode, headingAt, ← List.length_append, List.take_left]
  have inside : ∀ d ∈ c.frontCode, (d != ';' && d != '\x7b' && d != '\x7d') = true := fun d hd => by
    simp [c.ne_of_mem_frontCode hd (e := ';') (by decide) (by decide) (by decide),
      c.ne_of_mem_frontCode hd (e := '\x7b') (by decide) (by decide) (by decide),
      c.ne_of_mem_frontCode hd (e := '\x7d') (by decide) (by decide) (by decide)]
  have nothing : Text.takeEnd (fun d => d != ';' && d != '\x7b' && d != '\x7d') beforeCode = [] := by
    have := Text.takeEnd_append_within (p := fun d => d != ';' && d != '\x7b' && d != '\x7d')
      (s := beforeCode) (fun d hd => by rw [closed d hd]; rfl) []
    rw [List.append_nil] at this
    exact List.suffix_nil.1 this
  rw [regionStart, front, Text.takeEnd_append_of_all _ inside, nothing, List.nil_append, headingAt]
  exact Nat.add_sub_cancel ..

/-- The header region is what is rendered in front of the keyword. -/
theorem slice_front (raw : document.raw = before ++ (c.form id id ++ rest))
    (code : document.code = beforeCode ++ (c.code ++ restCode)) (aligned : before.length = beforeCode.length)
    (closed : ∀ d ∈ beforeCode.getLast?, d = '\x7d') :
    (document.slice (regionStart document.code (c.headingAt beforeCode.length))
        (c.headingAt beforeCode.length).start).raw = c.frontForm id ∧
      (document.slice (regionStart document.code (c.headingAt beforeCode.length))
        (c.headingAt beforeCode.length).start).code = c.frontCode := by
  have size := c.masks_frontForm.length_eq
  rw [c.regionStart_code code closed, Source.raw_slice, Source.code_slice, headingAt, Nat.add_sub_cancel_left]
  constructor
  · rw [raw, ← aligned, List.drop_left, form, List.append_assoc, size]
    exact List.take_left
  · rw [code, List.drop_left, code_eq, List.append_assoc]
    exact List.take_left

/-- What follows the name is the rest of the heading, the body in its braces, and what is rendered below. -/
theorem drop_name (raw : document.raw = before ++ (c.form id id ++ rest))
    (code : document.code = beforeCode ++ (c.code ++ restCode)) (aligned : before.length = beforeCode.length) :
    document.raw.drop (c.headingAt beforeCode.length).stop =
        c.baseForm ++ '\x7b' :: (c.insideForm id id ++ '\x7d' :: rest) ∧
      document.code.drop (c.headingAt beforeCode.length).stop =
        c.baseForm ++ '\x7b' :: (c.insideCode ++ '\x7d' :: restCode) := by
  have past (y front inside r : Text) :
      (y ++ ((front ++ (c.heading ++ (c.baseForm ++ '\x7b' :: (inside ++ ['\x7d'])))) ++ r)).drop
        (y.length + front.length + c.heading.length) = c.baseForm ++ '\x7b' :: (inside ++ '\x7d' :: r) := by
    rw [← List.drop_drop, ← List.drop_drop]
    simp only [List.append_assoc, List.drop_left, List.cons_append, List.nil_append]
  constructor
  · rw [raw, form, headingAt, ← aligned, c.masks_frontForm.length_eq]
    exact past ..
  · rw [code, code_eq]
    exact past ..

/-- **The declaration of a class is read back**, wherever it stands behind a declaration that is closed. -/
theorem blockOf?_code (raw : document.raw = before ++ (c.form id id ++ rest))
    (code : document.code = beforeCode ++ (c.code ++ restCode)) (aligned : before.length = beforeCode.length)
    (closed : ∀ d ∈ beforeCode.getLast?, d = '\x7d') (spans : List NamespaceSpan) :
    ∃ b, blockOf? document spans (c.headingAt beforeCode.length) .classType = some b ∧ c.Reads b := by
  obtain ⟨frontRaw, front⟩ := c.slice_front raw code aligned closed
  obtain ⟨tailRaw, tailCode⟩ := c.drop_name raw code aligned
  obtain ⟨tail, read, stop⟩ := headingTail_rendered c.fullName c.gap (tailCode.trans (List.append_assoc ..))
  have opening : (document.drop tail.stop).code = '\x7b' :: (c.insideCode ++ '\x7d' :: restCode) := by
    rw [Source.code_drop, stop, ← List.drop_drop, tailCode]
    exact List.drop_left
  have openingRaw : (document.drop tail.stop).raw = '\x7b' :: (c.insideForm id id ++ '\x7d' :: rest) := by
    rw [Source.raw_drop, stop, ← List.drop_drop, tailRaw]
    exact List.drop_left
  have inside : ((document.drop tail.stop).slice 1 (c.insideCode.length + 1)).code = c.insideCode := by
    rw [Source.code_slice, opening, List.drop_succ_cons, List.drop_zero, Nat.add_sub_cancel]
    exact List.take_left
  have insideRaw : ((document.drop tail.stop).slice 1 (c.insideCode.length + 1)).raw = c.insideForm id id := by
    rw [Source.raw_slice, openingRaw, List.drop_succ_cons, List.drop_zero, Nat.add_sub_cancel,
      c.masks_insideForm.length_eq]
    exact List.take_left
  have head : (document.code.drop tail.stop).head? = some '\x7b' := by rw [← Source.code_drop, opening]; rfl
  have closing : closing? '\x7b' '\x7d' (document.code.drop tail.stop) = some (c.insideCode.length + 1) := by
    rw [← Source.code_drop, opening]
    exact (closing?_eq_some_iff (by decide)).2 ⟨_, restCode, rfl, rfl, c.bracesPair_insideCode⟩
  have found : headingTail document (c.headingAt beforeCode.length).name (c.headingAt beforeCode.length).stop =
    .ok tail := read
  refine ⟨_, blockOf?_withBody found head closing, rfl, rfl, ?_, ?_⟩
  · show Text.join "\n" (attributeGroups _) = c.mark
    rw [c.attributeGroups_front frontRaw front]
    simp [Text.join]
  · exact membersOf_actions c.bottom insideRaw inside (tail.stop + 1)

end

end Class

/-! ## The declarations of a document -/

namespace File

variable (f : File)

theorem masks_text : Masks true f.text f.code :=
  (masks_flatMap fun c _ => c.masks_form).append (f.bottom.masks true)

/-- **The declarations of a rendered document** are those of its controllers, in order. -/
theorem blocksOf_text : List.Forall₂ Class.Reads f.classes (blocksOf f.text) := by
  have code : mask true f.text = f.classes.flatMap Class.code ++ f.bottom.text := f.masks_text.mask_eq
  have further : ∀ (document : Source) (spans : List NamespaceSpan) (classes : List Class) (before beforeCode : Text),
      document.raw = before ++ (classes.flatMap (Class.form id id) ++ f.bottom.text) →
      document.code = beforeCode ++ (classes.flatMap Class.code ++ f.bottom.text) →
      before.length = beforeCode.length → (∀ d ∈ beforeCode.getLast?, d = '\x7d') →
      List.Forall₂ Class.Reads classes ((headingsAt beforeCode.length classes).filterMap fun heading =>
        (declaredKind? document.code heading).bind (blockOf? document spans heading)) := by
    intro document spans classes
    induction classes with
    | nil => exact fun _ _ _ _ _ _ => .nil
    | cons c classes ih =>
      intro before beforeCode raw code aligned closed
      rw [List.flatMap_cons, List.append_assoc] at raw code
      obtain ⟨b, found, reads⟩ := c.blockOf?_code raw code aligned closed spans
      have size := c.masks_form.length_eq
      have rest := ih (before ++ c.form id id) (beforeCode ++ c.code)
        (by rw [raw, List.append_assoc]) (by rw [code, List.append_assoc])
        (by rw [List.length_append, List.length_append, aligned, size])
        (by
          rw [List.getLast?_append, c.getLast?_code]
          rintro d ⟨⟩
          rfl)
      rw [List.length_append] at rest
      rw [headingsAt, List.filterMap_cons, c.declaredKind?_code code, Option.bind_some, found]
      exact .cons reads rest
  rw [blocksOf]
  simp only [Source.code_ofText, code, headings_code]
  have := further (Source.ofText f.text) (namespaces (mask true f.text)) f.classes [] [] rfl code rfl (by simp)
  rwa [Source.code_ofText, code] at this

end File

end Rendered

end EndpointSurvey
