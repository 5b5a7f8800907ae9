/-
The members of a rendered controller: each action is cut from the body of its class where it ends, and its attribute and
its signature are those rendered.

Main statements: `cutFrom_stretch`, `membersOf_flatMap`, `Action.nextCut?_code`, `Action.memberOf?_form` and
`membersOf_actions`.
-/
import EndpointSurvey.Proofs.Declaration.Values
import EndpointSurvey.Proofs.Rendered.Signatures
import Mathlib.Data.List.Forall2

namespace EndpointSurvey

/-! ## Cutting a member -/

/-- A stretch without braces, semicolons and arrows is passed over; its brackets and parentheses are counted. -/
theorem cutFrom_stretch {t u : Text} {brackets brackets' parens parens' : Nat} (free : ∀ c ∈ t, c ≠ '\x7b' ∧ c ≠ ';')
    (arrowless : ∀ front rest, t = front ++ '=' :: rest → (rest ++ u).head? ≠ some '>')
    (square : nesting '[' ']' brackets t = some brackets') (round : nesting '(' ')' parens t = some parens')
    (offset : Nat) :
    cutFrom offset brackets parens none (t ++ u) = cutFrom (offset + t.length) brackets' parens' none u := by
  induction t generalizing offset brackets parens with
  | nil => cases square; cases round; rfl
  | cons c cs ih =>
    obtain ⟨⟨brace, semicolon⟩, rest⟩ := List.forall_mem_cons.1 free
    have later : ∀ front rest, cs = front ++ '=' :: rest → (rest ++ u).head? ≠ some '>' := fun front rest e =>
      arrowless (c :: front) rest (by rw [e, List.cons_append])
    have shift : offset + (c :: cs).length = offset + 1 + cs.length := by rw [List.length_cons]; omega
    rw [List.cons_append, cutFrom, shift]
    by_cases opener : c = '['
    · subst opener
      rw [nesting_opener] at square
      rw [nesting_other (by decide) (by decide)] at round
      rw [if_pos rfl, ih rest later square round]
    by_cases closer : c = ']'
    · subst closer
      rw [nesting_other (by decide) (by decide)] at round
      cases brackets with
      | zero => rw [nesting_closer_zero (by decide)] at square; cases square
      | succ brackets =>
        rw [nesting_closer (by decide)] at square
        rw [if_neg (by decide), if_pos rfl, Nat.add_sub_cancel, ih rest later square round]
    rw [nesting_other opener closer] at square
    rw [if_neg opener, if_neg closer]
    by_cases opener' : c = '('
    · subst opener'
      rw [nesting_opener] at round
      rw [if_pos rfl, ih rest later square round]
    by_cases closer' : c = ')'
    · subst closer'
      cases parens with
      | zero => rw [nesting_closer_zero (by decide)] at round; cases round
      | succ parens =>
        rw [nesting_closer (by decide)] at round
        rw [if_neg (by decide), if_pos rfl, Nat.add_sub_cancel, ih rest later square round]
    rw [nesting_other opener' closer'] at round
    have arrow : ¬ (c = '=' ∧ (cs ++ u).head? = some '>' ∧ parens = 0 ∧ brackets = 0 ∧ none = (none : Option Nat)) := by
      rintro ⟨rfl, head, -⟩
      exact arrowless [] cs rfl head
    rw [if_neg opener', if_neg closer', if_neg arrow, if_neg brace, if_neg semicolon, ih rest later square round]

theorem cutFrom_plain {t : Text} {brackets brackets' parens parens' : Nat}
    (free : ∀ c ∈ t, c ≠ '\x7b' ∧ c ≠ ';' ∧ c ≠ '=') (square : nesting '[' ']' brackets t = some brackets')
    (round : nesting '(' ')' parens t = some parens') (offset : Nat) (u : Text) :
    cutFrom offset brackets parens none (t ++ u) = cutFrom (offset + t.length) brackets' parens' none u := by
  refine cutFrom_stretch (fun c hc => ⟨(free c hc).1, (free c hc).2.1⟩) (fun front rest e => ?_) square round offset
  exact absurd rfl (free '=' (by simp [e])).2.2

theorem memberCutsFrom_none {code : Text} (h : nextCut? code = none) (passed : Nat) :
    memberCutsFrom passed code = [] := by
  rw [memberCutsFrom]
  split
  · rfl
  · simp_all

theorem memberCutsFrom_some {code : Text} {cut : MemberCut} (h : nextCut? code = some cut) (passed : Nat) :
    memberCutsFrom passed code = (passed, cut) :: memberCutsFrom (passed + cut.stop) (code.drop cut.stop) := by
  conv => lhs; rw [memberCutsFrom]
  split
  · simp_all
  · next found =>
    rw [h] at found
    cases found
    rfl

/-- The members of a body made up of parts are those of the parts, in order, if each part is cut where it ends. -/
theorem membersOf_flatMap {α : Type} {reads : α → MemberBlock → Prop} {form code : α → Text} {cut : α → MemberCut}
    (size : ∀ a, (form a).length = (code a).length) (whole : ∀ a, (cut a).stop = (code a).length)
    (cuts : ∀ a rest, nextCut? (code a ++ rest) = some (cut a))
    (member : ∀ a {body : Source} {rest rest' : Text}, body.raw = form a ++ rest → body.code = code a ++ rest' →
      ∀ offset, ∃ m, memberOf? offset body (cut a) = some m ∧ reads a m)
    {as : List α} {bottom bottomCode : Text} (last : nextCut? bottomCode = none) {body : Source}
    (raw : body.raw = as.flatMap form ++ bottom) (code' : body.code = as.flatMap code ++ bottomCode) (offset : Nat) :
    List.Forall₂ reads as (membersOf offset body) := by
  have further : ∀ (as : List α) (passed : Nat), body.raw.drop passed = as.flatMap form ++ bottom →
      body.code.drop passed = as.flatMap code ++ bottomCode →
      List.Forall₂ reads as ((memberCutsFrom passed (body.code.drop passed)).filterMap
        fun entry => memberOf? (offset + entry.1) (body.drop entry.1) entry.2) := by
    intro as
    induction as with
    | nil =>
      intro passed _ code
      rw [code, List.flatMap_nil, List.nil_append, memberCutsFrom_none last]
      exact .nil
    | cons a as ih =>
      intro passed raw code
      rw [List.flatMap_cons, List.append_assoc] at raw code
      have raw' : (body.drop passed).raw = form a ++ _ := raw
      obtain ⟨m, found, read⟩ := member a raw' code (offset + passed)
      have here : nextCut? (body.code.drop passed) = some (cut a) := by rw [code, cuts]
      have tail := ih (passed + (cut a).stop) (by rw [← List.drop_drop, raw, whole]; exact List.drop_left' (size a))
        (by rw [← List.drop_drop, code, whole]; exact List.drop_left)
      rw [memberCutsFrom_some here, List.filterMap_cons, List.drop_drop]
      simp only [found]
      exact .cons read tail
  exact further as 0 (by rw [List.drop_zero, raw]) (by rw [List.drop_zero, code'])

namespace Rendered

theorem Blanks.all (g : Blanks) : ∀ c ∈ g.text, EndpointSurvey.blank c = true := List.all_eq_true.1 g.blank

theorem Blanks.ne (g : Blanks) {d : Char} (solid : EndpointSurvey.blank d = false) : ∀ c ∈ g.text, c ≠ d :=
  fun c hc => ne_of_test (g.all c hc) solid

theorem Blanks.masks (g : Blanks) (literals : Bool) : Masks literals g.text g.text :=
  masks_plain (fun c hc => codeMark_of_blank (g.all c hc)) literals

namespace Action

variable (a : Action)

/-- the attribute that gives the verb and the route -/
def mark : Text := attributeForm a.verb.attributeName a.route.body

theorem length_mark : a.mark.length = a.verb.attributeName.length + a.route.body.length + 6 :=
  length_attributeForm _ _

/-- the code of the action -/
def code : Text := a.form Lexeme.blankOut (mask true)

/-- the code of the action up to its body -/
def headCode : Text := a.headForm Lexeme.blankOut

theorem masks_headForm : Masks true (a.headForm id) a.headCode :=
  (a.above.masks true).append ((masks_attributeForm (markName_verb a.verb)).append ((a.below.masks true).append
    ((masks_plain a.codeMark_signature true).append (a.gap.masks true))))

theorem masks_form : Masks true (a.form id id) a.code :=
  a.masks_headForm.append ((masks_plain (t := ['\x7b']) (Text.forall_of_all (by decide)) true).append
    ((masks_of_lines a.body.first a.body.closed).append
      (masks_plain (t := ['\x7d']) (Text.forall_of_all (by decide)) true)))

theorem code_eq : a.code = a.headCode ++ '\x7b' :: (mask true a.body.text ++ ['\x7d']) := rfl

theorem headCode_eq : a.headCode = a.above.text ++
    (attributeForm a.verb.attributeName (List.replicate a.route.body.length ' ') ++
      (a.below.text ++ (a.signature ++ a.gap.text))) := by
  rw [headCode, headForm, a.route.blankOut_body]

theorem head?_signature (t : Text) : (a.signature ++ t).head? = some 'p' := rfl

/-! ## Brackets of an action -/

theorem paired_listText : Paired '[' ']' a.listText := by
  rw [listText]
  induction a.parameters with
  | nil => rfl
  | cons p ps ih =>
    cases ps with
    | nil => simpa [Text.join] using p.paired
    | cons q ps =>
      rw [List.map_cons, List.map_cons, Text.join_cons]
      exact p.paired.append ((Paired.of_free (Text.forall_of_all (by decide))).append ih)

theorem paired_signature_square : Paired '[' ']' a.signature := by
  have opening : Paired '[' ']' a.opening :=
    (Paired.of_free (t := "public ") (Text.forall_of_all (by decide))).append (Declared.paired ⟨a.returnType, a.name⟩)
  rw [signature_eq]
  exact opening.append
    ((a.paired_listText.append (Paired.of_free (Text.forall_of_all (by decide)))).cons (by decide) (by decide))

theorem paired_signature_round : Paired '(' ')' a.signature := by
  have free {t : Text} (h : ∀ c ∈ t, typeChar c = true) : Paired '(' ')' t :=
    Paired.of_free fun c hc => ⟨ne_of_test (h c hc) (by decide), ne_of_test (h c hc) (by decide)⟩
  rw [signature_eq]
  exact (free a.all_opening).append (Paired.group (by decide) (free a.all_listText))

/-- What of the parts of a heading pairs up does so in the whole. -/
theorem paired_headCode {opener closer : Char}
    (solid : EndpointSurvey.blank opener = false ∧ EndpointSurvey.blank closer = false)
    (mark : Paired opener closer (attributeForm a.verb.attributeName (List.replicate a.route.body.length ' ')))
    (signature : Paired opener closer a.signature) : Paired opener closer a.headCode := by
  have blanks (g : Blanks) : Paired opener closer g.text :=
    Paired.of_free fun c hc => ⟨g.ne solid.1 c hc, g.ne solid.2 c hc⟩
  rw [a.headCode_eq]
  exact (blanks a.above).append (mark.append ((blanks a.below).append (signature.append (blanks a.gap))))

theorem ne_of_mem_headCode {c d : Char} (hc : c ∈ a.headCode)
    (solid : EndpointSurvey.blank d = false) (other : signatureChar d = false)
    (mark : d ∉ (['[', '(', '"', ' ', ')', ']'] : Text)) : c ≠ d := by
  have named : nameChar d = false := by
    simp only [signatureChar, typeChar, Bool.or_eq_false_iff] at other
    exact other.1.1.1.1
  rw [a.headCode_eq, List.mem_append, List.mem_append, List.mem_append, List.mem_append] at hc
  rcases hc with hc | hc | hc | hc | hc
  · exact a.above.ne solid c hc
  · exact ne_of_mem_attributeForm (markName_verb a.verb) hc named mark
  · exact a.below.ne solid c hc
  · exact ne_of_test (a.all_signature c hc) other
  · exact a.gap.ne solid c hc

/-- The braces of an action pair up. -/
theorem bracesPair_code : Paired '\x7b' '\x7d' a.code :=
  (Paired.of_free fun _ hc => ⟨a.ne_of_mem_headCode hc (by decide) (by decide) (by decide),
    a.ne_of_mem_headCode hc (by decide) (by decide) (by decide)⟩).append (Paired.group (by decide) a.body.pairs)

/-! ## The member of an action -/

/-- where the member ends, and where its body starts -/
def cut : MemberCut := ⟨a.headCode.length, a.code.length, .block, some a.headCode.length, false⟩

/-- **An action is cut where it ends**, whatever follows it. -/
theorem nextCut?_code (rest : Text) : nextCut? (a.code ++ rest) = some a.cut := by
  have free : ∀ c ∈ a.headCode, c ≠ '\x7b' ∧ c ≠ ';' ∧ c ≠ '=' := fun c hc =>
    ⟨a.ne_of_mem_headCode hc (by decide) (by decide) (by decide),
      a.ne_of_mem_headCode hc (by decide) (by decide) (by decide),
      a.ne_of_mem_headCode hc (by decide) (by decide) (by decide)⟩
  have square : Paired '[' ']' a.headCode :=
    a.paired_headCode (by decide) (paired_square (markName_verb a.verb) _) a.paired_signature_square
  have round : Paired '(' ')' a.headCode :=
    a.paired_headCode (by decide) (paired_round (markName_verb a.verb) _) a.paired_signature_round
  have closing : closing? '\x7b' '\x7d' ('\x7b' :: (mask true a.body.text ++ ['\x7d'] ++ rest)) =
      some ((mask true a.body.text).length + 1) :=
    (closing?_eq_some_iff (by decide)).2 ⟨_, rest, by rw [List.append_assoc]; rfl, rfl, a.body.pairs⟩
  have size : a.code.length = a.headCode.length + ((mask true a.body.text).length + 1) + 1 := by
    rw [code_eq, List.length_append, List.length_cons, List.length_append, List.length_singleton]
    omega
  rw [nextCut?, code_eq, List.append_assoc, cutFrom_plain free square round, Nat.zero_add, List.cons_append, cutFrom,
    if_neg (by decide), if_neg (by decide), if_neg (by decide), if_neg (by decide), if_neg (by simp), if_pos rfl, closing]
  simp [cut, size]

/-- what a description says of a member -/
structure Reads (a : Action) (m : MemberBlock) : Prop where
  attributeText : m.attributeText = a.mark
  signature : m.signature = a.signature

/-- The attribute is cut off the front of the heading, and the blanks below it. -/
theorem leadingGroups_headCode :
    leadingGroups a.above.text.length a.above.text.length (a.headCode.drop a.above.text.length) =
      .ok (a.above.text.length + a.mark.length, a.above.text.length + a.mark.length + a.below.text.length) := by
  have closing := closing?_attributeForm (markName_verb a.verb) a.route.body.length
    (a.below.text ++ (a.signature ++ a.gap.text))
  have past : (attributeForm a.verb.attributeName (List.replicate a.route.body.length ' ') ++
      (a.below.text ++ (a.signature ++ a.gap.text))).drop
        (a.verb.attributeName.length + a.route.body.length + 5 + 1) = a.below.text ++ (a.signature ++ a.gap.text) :=
    List.drop_left' (by rw [length_attributeForm, List.length_replicate])
  have below : Text.leadingBlanks (a.below.text ++ (a.signature ++ a.gap.text)) = a.below.text.length :=
    Text.leadingBlanks_padded a.below.all (by rw [a.head?_signature]; rintro c ⟨⟩; decide)
  rw [a.headCode_eq, List.drop_left, leadingGroups_closed rfl closing, past, below, List.drop_left,
    leadingGroups_other (a.head?_signature _) (by decide), length_mark]
  congr 2

/-- **The member of an action is read back**: its attribute as written and its signature on one line. -/
theorem memberOf?_form {body : Source} {rest rest' : Text}
    (raw : body.raw = a.form id id ++ rest) (code : body.code = a.code ++ rest') (offset : Nat) :
    ∃ m, memberOf? offset body a.cut = some m ∧ a.Reads m := by
  have headRaw : (body.take a.cut.headingStop).raw = a.headForm id := by
    rw [Source.raw_take, raw, form, List.append_assoc]
    exact List.take_left' a.masks_headForm.length_eq.symm
  have headCode : (body.take a.cut.headingStop).code = a.headCode := by
    rw [Source.code_take, code, code_eq, List.append_assoc]
    exact List.take_left
  generalize hheading : body.take a.cut.headingStop = heading at headRaw headCode
  have lead : Text.leadingBlanks a.headCode = a.above.text.length := by
    rw [a.headCode_eq]
    exact Text.leadingBlanks_padded a.above.all (by rintro c ⟨⟩; decide)
  have written : heading.raw.drop a.above.text.length = a.mark ++ (a.below.text ++ (a.signature ++ a.gap.text)) := by
    rw [headRaw, headForm]
    exact List.drop_left
  have filled : ¬ (a.above.text.length = heading.length ∨ a.cut.unbalanced = true) := by
    rintro (same | unbalanced)
    · have := congrArg List.length (a.headCode_eq)
      rw [List.length_append, List.length_append, length_attributeForm] at this
      rw [Source.length, headCode] at same
      omega
    · cases unbalanced
  rw [memberOf?]
  simp only [hheading, headCode, lead, a.leadingGroups_headCode, Bool.or_eq_true, decide_eq_true_eq, if_neg filled]
  refine ⟨_, rfl, ?_, ?_⟩
  · show ((heading.raw.drop _).take _) = a.mark
    rw [written, Nat.add_sub_cancel_left]
    exact List.take_left
  · show (mask false (heading.raw.drop _)).collapse = a.signature
    rw [Nat.add_assoc, ← List.drop_drop, written, ← List.drop_drop, List.drop_left, List.drop_left, collapse_signature]

end Action

/-- Where only blanks are left there is no further member. -/
theorem Blanks.nextCut? (g : Blanks) : nextCut? g.text = none := by
  have free : ∀ c ∈ g.text, c ≠ '\x7b' ∧ c ≠ ';' ∧ c ≠ '=' := fun c hc =>
    ⟨g.ne (by decide) c hc, g.ne (by decide) c hc, g.ne (by decide) c hc⟩
  have square : Paired '[' ']' g.text := Paired.of_free fun c hc => ⟨g.ne (by decide) c hc, g.ne (by decide) c hc⟩
  have round : Paired '(' ')' g.text := Paired.of_free fun c hc => ⟨g.ne (by decide) c hc, g.ne (by decide) c hc⟩
  have := cutFrom_plain free square round 0 []
  rwa [List.append_nil, cutFrom] at this

/-- **The members of a rendered body** are those of its actions, in order. -/
theorem membersOf_actions {actions : List Action} (bottom : Blanks)
    {body : Source} (raw : body.raw = actions.flatMap (Action.form id id) ++ bottom.text)
    (code : body.code = actions.flatMap Action.code ++ bottom.text) (offset : Nat) :
    List.Forall₂ Action.Reads actions (membersOf offset body) :=
  membersOf_flatMap (fun a => a.masks_form.length_eq.symm) (fun _ => rfl) Action.nextCut?_code
    (fun a _ _ _ raw code offset => a.memberOf?_form raw code offset) bottom.nextCut? raw code offset

end Rendered

end EndpointSurvey
