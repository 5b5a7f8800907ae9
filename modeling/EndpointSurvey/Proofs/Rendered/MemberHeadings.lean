/-
Headings of members as they are rendered: groups of attributes of any kind whose code has no brace, with blanks between
them, and the text of a signature. The groups are cut off the front of a heading and the rest is put on one line.

Main statements: `cutFrom_groups`, `leadingGroups_groups`, `marks_ofGroups`, `memberOf?_heading` and `tells_block`.
-/
import EndpointSurvey.Proofs.Declaration.MemberText
import EndpointSurvey.Proofs.Rendered.AttributeCode

namespace EndpointSurvey.Rendered

open Lexeme

/-! ## Groups of attributes -/

/-- what stands between the brackets of a group, and its code: nothing in it reaches past the closing bracket -/
structure AttributeGroup where
  inside : Text
  code : Text
  masks : Masks true ('[' :: (inside ++ [']'])) ('[' :: (code ++ [']']))
  plain : Plain code
  arrowless : ¬ ['=', '>'] <:+: code
  square : Paired '[' ']' code
  round : Paired '(' ')' code

namespace AttributeGroup

variable (g : AttributeGroup)

def form : Text := '[' :: (g.inside ++ [']'])

def codeForm : Text := '[' :: (g.code ++ [']'])

theorem length_form : g.form.length = g.codeForm.length := g.masks.length_eq.symm

theorem closing?_codeForm (rest : Text) : closing? '[' ']' (g.codeForm ++ rest) = some (g.code.length + 1) := by
  rw [codeForm, List.cons_append, List.append_assoc]
  exact (closing?_eq_some_iff (by decide)).2 ⟨g.code, rest, rfl, rfl, g.square⟩

theorem plain_codeForm : Plain g.codeForm :=
  List.forall_mem_cons.2 ⟨by decide, List.forall_mem_append.2 ⟨g.plain, by decide⟩⟩

end AttributeGroup

/-- groups, each with the blanks in front of it -/
abbrev AttributeGroups := List (Blanks × AttributeGroup)

namespace AttributeGroups

variable (groups : AttributeGroups)

def form : Text := groups.flatMap fun (gap, g) => gap.text ++ g.form

def code : Text := groups.flatMap fun (gap, g) => gap.text ++ g.codeForm

/-- the groups from the first one on, as they are written -/
def text : AttributeGroups → Text
  | [] => []
  | (_, g) :: rest => g.form ++ form rest

/-- the attributes that are read in the groups -/
def marks : List Attribute := (EndpointSurvey.attributes none groups.text).value

theorem code_cons (gap : Blanks) (g : AttributeGroup) (groups : AttributeGroups) :
    code ((gap, g) :: groups) = gap.text ++ (g.codeForm ++ code groups) := by
  rw [code, List.flatMap_cons, List.append_assoc]
  rfl

theorem form_cons (gap : Blanks) (g : AttributeGroup) (groups : AttributeGroups) :
    form ((gap, g) :: groups) = gap.text ++ (g.form ++ form groups) := by
  rw [form, List.flatMap_cons, List.append_assoc]
  rfl

theorem masks : Masks true groups.form groups.code := masks_flatMap fun (gap, g) _ => (gap.masks true).append g.masks

theorem plain : Plain groups.code := by
  intro c hc
  obtain ⟨⟨gap, g⟩, -, hc⟩ := List.mem_flatMap.1 hc
  rcases List.mem_append.1 hc with hc | hc
  · exact ⟨gap.ne (by decide) c hc, gap.ne (by decide) c hc, gap.ne (by decide) c hc⟩
  · exact g.plain_codeForm c hc

/-- The scan for the end of a member passes over groups. -/
theorem cutFrom_groups (rest : Text) (offset : Nat) :
    cutFrom offset 0 0 none (groups.code ++ rest) = cutFrom (offset + groups.code.length) 0 0 none rest := by
  induction groups generalizing offset with
  | nil => rfl
  | cons entry groups ih =>
    obtain ⟨gap, g⟩ := entry
    have blanks (d : Char) (solid : EndpointSurvey.blank d = false) : ∀ c ∈ gap.text, c ≠ d := gap.ne solid
    have front : ∀ c ∈ gap.text ++ ['['], c ∉ (['=', '>'] : Text) := by
      refine List.forall_mem_append.2 ⟨fun c hc => ?_, by decide⟩
      simp [blanks '=' (by decide) c hc, blanks '>' (by decide) c hc]
    have shape : gap.text ++ g.codeForm = (gap.text ++ ['[']) ++ (g.code ++ [']']) := by simp [AttributeGroup.codeForm]
    have arrowless : ¬ ['=', '>'] <:+: gap.text ++ g.codeForm := by
      rw [shape, Text.infix_append_right_iff front, Text.infix_append_left_iff (by decide)]
      exact g.arrowless
    have last : (gap.text ++ g.codeForm).getLast? = some ']' := by
      rw [shape, ← List.append_assoc, List.getLast?_concat]
    have edge : ∀ front behind, gap.text ++ g.codeForm = front ++ '=' :: behind →
        (behind ++ (code groups ++ rest)).head? ≠ some '>' := by
      intro front behind e head
      cases behind with
      | nil =>
        rw [e, List.getLast?_concat] at last
        cases last
      | cons d ds =>
        obtain rfl : d = '>' := Option.some.inj head
        exact arrowless ⟨front, ds, by rw [e]; simp⟩
    have square : Paired '[' ']' (gap.text ++ g.codeForm) :=
      (Paired.of_free fun c hc => ⟨blanks _ (by decide) c hc, blanks _ (by decide) c hc⟩).append
        (g.square.group (by decide))
    have round : Paired '(' ')' (gap.text ++ g.codeForm) :=
      (Paired.of_free fun c hc => ⟨blanks _ (by decide) c hc, blanks _ (by decide) c hc⟩).append
        ((g.round.append (.of_free (by decide))).cons (by decide) (by decide))
    have free : ∀ c ∈ gap.text ++ g.codeForm, c ≠ '\x7b' ∧ c ≠ ';' := by
      refine List.forall_mem_append.2 ⟨fun c hc => ⟨blanks _ (by decide) c hc, blanks _ (by decide) c hc⟩, fun c hc => ?_⟩
      exact ⟨(g.plain_codeForm c hc).1, (g.plain_codeForm c hc).2.2⟩
    have size : offset + (code ((gap, g) :: groups)).length =
        offset + (gap.text ++ g.codeForm).length + (code groups).length := by
      rw [code_cons, ← List.append_assoc, List.length_append]
      omega
    rw [size, code_cons, ← List.append_assoc, List.append_assoc, cutFrom_stretch free edge square round, ih]

section
variable {groups} {above : Blanks} {t : Text} {c : Char} (head : t.head? = some c) (other : c ≠ '[')
  (solid : EndpointSurvey.blank c = false)
include head solid

theorem leadingBlanks_above : Text.leadingBlanks (above.text ++ t) = above.text.length :=
  Text.leadingBlanks_padded above.all (by
    rw [head]
    rintro _ ⟨⟩
    exact solid)

theorem leadingBlanks_lt : Text.leadingBlanks (groups.code ++ (above.text ++ t)) < (groups.code ++ (above.text ++ t)).length := by
  have short {g u : Text} {d : Char} (blanks : ∀ c ∈ g, EndpointSurvey.blank c = true) (head : u.head? = some d)
      (solid : EndpointSurvey.blank d = false) : Text.leadingBlanks (g ++ u) < (g ++ u).length := by
    obtain ⟨ds, rfl⟩ := List.head?_eq_some_iff.1 head
    rw [Text.leadingBlanks_padded blanks (by simpa using solid), List.length_append, List.length_cons]
    omega
  cases groups with
  | nil =>
    have none : code [] ++ (above.text ++ t) = above.text ++ t := rfl
    rw [none]
    exact short above.all head solid
  | cons entry groups =>
    obtain ⟨gap, g⟩ := entry
    rw [code_cons, List.append_assoc]
    exact short gap.all (d := '[') rfl (by decide)

include other

/-- The groups are cut off the front of a heading, and the blanks behind them. -/
theorem leadingGroups_groups (stop : Nat) :
    leadingGroups (stop + Text.leadingBlanks (groups.code ++ (above.text ++ t))) stop
        ((groups.code ++ (above.text ++ t)).drop (Text.leadingBlanks (groups.code ++ (above.text ++ t)))) =
      .ok (stop + groups.code.length, stop + groups.code.length + above.text.length) := by
  induction groups generalizing stop with
  | nil =>
    have none : code [] ++ (above.text ++ t) = above.text ++ t := rfl
    rw [none, leadingBlanks_above head solid, List.drop_left]
    exact leadingGroups_other head other _ _
  | cons entry groups ih =>
    obtain ⟨gap, g⟩ := entry
    have shape : code ((gap, g) :: groups) ++ (above.text ++ t) =
        gap.text ++ (g.codeForm ++ (code groups ++ (above.text ++ t))) := by
      rw [code_cons, List.append_assoc, List.append_assoc]
    have lead : Text.leadingBlanks (gap.text ++ (g.codeForm ++ (code groups ++ (above.text ++ t)))) = gap.text.length :=
      Text.leadingBlanks_padded gap.all (by
        rintro _ ⟨⟩
        decide)
    have width : g.code.length + 1 + 1 = g.codeForm.length := by simp [AttributeGroup.codeForm]
    have place : stop + gap.text.length + (g.code.length + 1) + 1 = stop + (gap.text.length + g.codeForm.length) := by omega
    have whole : stop + (gap.text.length + g.codeForm.length) + (code groups).length =
        stop + (code ((gap, g) :: groups)).length := by
      rw [code_cons, List.length_append, List.length_append]
      omega
    rw [shape, lead, List.drop_left, leadingGroups_closed rfl (g.closing?_codeForm _), width, List.drop_left, place, ih,
      whole]

/-- The text of the groups is what is cut off, from the first of them on. -/
theorem leadingGroups_front (written : Text) : ∃ stop,
    leadingGroups (Text.leadingBlanks (groups.code ++ (above.text ++ t)))
        (Text.leadingBlanks (groups.code ++ (above.text ++ t)))
        ((groups.code ++ (above.text ++ t)).drop (Text.leadingBlanks (groups.code ++ (above.text ++ t)))) =
      .ok (stop, groups.code.length + above.text.length) ∧
    ((groups.form ++ written).drop (Text.leadingBlanks (groups.code ++ (above.text ++ t)))).take
        (stop - Text.leadingBlanks (groups.code ++ (above.text ++ t))) = groups.text := by
  have whole := @leadingGroups_groups groups above t c head other solid 0
  cases groups with
  | nil =>
    have none : code [] ++ (above.text ++ t) = above.text ++ t := rfl
    rw [none, leadingBlanks_above head solid, List.drop_left]
    refine ⟨_, (leadingGroups_other head other _ _).trans (by rw [code, List.flatMap_nil, List.length_nil, Nat.zero_add]),
      ?_⟩
    rw [Nat.sub_self]
    rfl
  | cons entry groups =>
    obtain ⟨gap, g⟩ := entry
    have shape : code ((gap, g) :: groups) ++ (above.text ++ t) =
        gap.text ++ (g.codeForm ++ (code groups ++ (above.text ++ t))) := by
      rw [code_cons, List.append_assoc, List.append_assoc]
    have lead : Text.leadingBlanks (gap.text ++ (g.codeForm ++ (code groups ++ (above.text ++ t)))) = gap.text.length :=
      Text.leadingBlanks_padded gap.all (by
        rintro _ ⟨⟩
        decide)
    have width : (code ((gap, g) :: groups)).length - gap.text.length = (g.form ++ form groups).length := by
      rw [code_cons, List.length_append, List.length_append, List.length_append, g.length_form,
        (masks groups).length_eq]
      omega
    rw [shape, lead, List.drop_left, Nat.zero_add, leadingGroups_closed rfl (g.closing?_codeForm _)] at whole
    rw [shape, lead, List.drop_left, leadingGroups_closed rfl (g.closing?_codeForm _)]
    rw [Nat.zero_add] at whole
    refine ⟨_, whole, ?_⟩
    rw [width, form_cons, List.append_assoc, List.drop_left]
    exact List.take_left

end

end AttributeGroups

/-! ## Described groups -/

/-- a group of attributes with names and arguments as they are described -/
def AttributeGroup.ofGroup (g : Group) : AttributeGroup where
  inside := g.inside id
  code := g.inside blankOut
  masks := g.masks_form
  plain := g.forall_inside
    (fun c bare => ⟨ne_of_bareChar bare (by decide), ne_of_bareChar bare (by decide), ne_of_bareChar bare (by decide)⟩)
    (by decide) (by decide) (by decide)
  arrowless arrow := by
    have free : ∀ c ∈ g.inside blankOut, c ≠ '>' :=
      g.forall_inside (fun c bare => ne_of_bareChar bare (by decide)) (by decide) (by decide) (by decide)
    exact free '>' (arrow.subset (by simp)) rfl
  square := .of_free <| g.forall_inside
    (fun c bare => ⟨ne_of_bareChar bare (by decide), ne_of_bareChar bare (by decide)⟩) (by decide) (by decide) (by decide)
  round := g.pairs_inside

/-- described groups, each with the blanks in front of it -/
def AttributeGroups.ofGroups (groups : List (Blanks × Group)) : AttributeGroups :=
  groups.map fun (gap, g) => (gap, .ofGroup g)

theorem readGroups_ofGroups (groups : List (Blanks × Group)) :
    Attribute.readGroups none (Source.ofText (AttributeGroups.ofGroups groups).form) =
      pure (groups.flatMap fun (_, g) => g.attributes) := by
  induction groups with
  | nil => exact attributes_nil
  | cons entry groups ih =>
    obtain ⟨gap, g⟩ := entry
    have free : '[' ∉ (Source.ofText gap.text).code := by
      rw [Source.code_ofText, (gap.masks true).mask_eq]
      exact fun opened => gap.ne (by decide) _ opened rfl
    have rest := (AttributeGroups.ofGroups groups).masks
    have shape : (AttributeGroups.ofGroups ((gap, g) :: groups)).form =
        gap.text ++ (g.form id ++ (AttributeGroups.ofGroups groups).form) := AttributeGroups.form_cons ..
    rw [shape, ofText_append (gap.masks true) (g.masks_form.append rest), ofText_append g.masks_form rest,
      Attribute.readGroups_free none free, g.readGroups_append, ih]
    rfl

/-- **Of described groups the attributes are read that are described.** -/
theorem marks_ofGroups (groups : List (Blanks × Group)) :
    (AttributeGroups.ofGroups groups).marks = groups.flatMap fun (_, g) => g.attributes := by
  cases groups with
  | nil =>
    rw [AttributeGroups.marks]
    show (EndpointSurvey.attributes none []).value = _
    rw [attributes_nil]
    rfl
  | cons entry groups =>
    obtain ⟨gap, g⟩ := entry
    rw [AttributeGroups.marks]
    show (Attribute.readGroups none (Source.ofText (g.form id ++ (AttributeGroups.ofGroups groups).form))).value = _
    rw [ofText_append g.masks_form (AttributeGroups.ofGroups groups).masks, g.readGroups_append, readGroups_ofGroups]
    rfl

/-! ## Members with a block -/

section
variable {groups : AttributeGroups} {above : Blanks} {t code : Text} {c : Char} {cut : MemberCut} {body : Source}
  {rest rest' : Text}

/-- **The heading of a member is read back**: its groups as they are written, and the rest on one line. -/
theorem memberOf?_heading (head : code.head? = some c) (other : c ≠ '[') (solid : EndpointSurvey.blank c = false)
    (size : t.length = code.length) (stop : cut.headingStop = (groups.code ++ (above.text ++ code)).length)
    (balanced : cut.unbalanced = false) (raw : body.raw = groups.form ++ (above.text ++ t) ++ rest)
    (shape : body.code = groups.code ++ (above.text ++ code) ++ rest') (offset : Nat) :
    ∃ m, memberOf? offset body cut = some m ∧ m.attributeText = groups.text ∧
      m.signature = (mask false t).collapse ∧ m.terminator = cut.terminator ∧
      ∀ start, cut.blockStart = some start → m.accessorText = (body.slice start cut.stop).raw := by
  have long : (groups.form ++ (above.text ++ t)).length = (groups.code ++ (above.text ++ code)).length := by
    simp only [List.length_append, groups.masks.length_eq, size]
  have headRaw : (body.take cut.headingStop).raw = groups.form ++ (above.text ++ t) := by
    rw [Source.raw_take, raw, stop]
    exact List.take_left' long
  have headCode : (body.take cut.headingStop).code = groups.code ++ (above.text ++ code) := by
    rw [Source.code_take, shape, stop]
    exact List.take_left
  generalize hheading : body.take cut.headingStop = heading at headRaw headCode
  obtain ⟨place, cutOff, taken⟩ := @AttributeGroups.leadingGroups_front groups above code c head other solid
    (above.text ++ t)
  have filled : ¬ (Text.leadingBlanks (groups.code ++ (above.text ++ code)) = heading.length ∨
      cut.unbalanced = true) := by
    have short := @AttributeGroups.leadingBlanks_lt groups above code c head solid
    rintro (same | unbalanced)
    · rw [same, Source.length, headCode] at short
      exact Nat.lt_irrefl _ short
    · rw [balanced] at unbalanced
      cases unbalanced
  rw [memberOf?]
  simp only [hheading, headCode, Bool.or_eq_true, decide_eq_true_eq, if_neg filled]
  rw [cutOff]
  refine ⟨_, rfl, ?_, ?_, rfl, ?_⟩
  · show ((heading.raw.drop _).take _) = _
    rw [headRaw, taken]
  · show (mask false (heading.raw.drop _)).collapse = _
    rw [headRaw, groups.masks.length_eq, ← List.drop_drop, List.drop_left, List.drop_left]
  · intro start block
    simp only [block]

/-- the cut of a member that ends with a block behind its heading -/
def blockCut (heading block : Text) : MemberCut :=
  ⟨heading.length, (heading ++ block).length, .block, some heading.length, false⟩

/-- A member with a block is cut off behind it. -/
theorem nextCut?_block {inner : Text} (plain : Plain t) (arrowless : ¬ ['=', '>'] <:+: t) (square : Paired '[' ']' t)
    (round : Paired '(' ')' t) (pairs : Paired '\x7b' '\x7d' inner) (rest : Text) :
    nextCut? (groups.code ++ t ++ '\x7b' :: (inner ++ ['\x7d']) ++ rest) =
      some (blockCut (groups.code ++ t) ('\x7b' :: (inner ++ ['\x7d']))) := by
  have shape : groups.code ++ t ++ '\x7b' :: (inner ++ ['\x7d']) ++ rest =
      groups.code ++ (t ++ '\x7b' :: (inner ++ '\x7d' :: rest)) := by simp
  have size : 0 + groups.code.length + t.length + (inner.length + 1) + 1 =
      (groups.code ++ t ++ '\x7b' :: (inner ++ ['\x7d'])).length := by
    simp only [List.length_append, List.length_cons, List.length_nil]
    omega
  have passed := cutFrom_stretch (u := '\x7b' :: (inner ++ '\x7d' :: rest)) (fun c hc => ⟨(plain c hc).1, (plain c hc).2.2⟩)
    (arrowless_append arrowless nofun) square round (0 + groups.code.length)
  have start : 0 + groups.code.length + t.length = (groups.code ++ t).length := by
    rw [Nat.zero_add, List.length_append]
  rw [nextCut?, shape, groups.cutFrom_groups, passed, cutFrom_block pairs, size, start]
  rfl

/-- A member with a block tells what is made of its groups, its signature on one line and its block. -/
theorem tells_block {inner innerCode : Text} {told : Option Property} (head : code.head? = some c) (other : c ≠ '[')
    (solid : EndpointSurvey.blank c = false) (size : t.length = code.length) (plain : Plain (above.text ++ code))
    (arrowless : ¬ ['=', '>'] <:+: above.text ++ code) (square : Paired '[' ']' (above.text ++ code))
    (round : Paired '(' ')' (above.text ++ code)) (pairs : Paired '\x7b' '\x7d' innerCode)
    (innerSize : inner.length = innerCode.length)
    (member : ∀ m : MemberBlock, m.attributeText = groups.text → m.signature = (mask false t).collapse →
      m.terminator = .block → m.accessorText = '\x7b' :: (inner ++ ['\x7d']) → m.told = told) :
    Tells (groups.form ++ (above.text ++ t) ++ '\x7b' :: (inner ++ ['\x7d']))
      (groups.code ++ (above.text ++ code) ++ '\x7b' :: (innerCode ++ ['\x7d'])) told.toList := by
  have front : (groups.form ++ (above.text ++ t)).length = (groups.code ++ (above.text ++ code)).length := by
    simp only [List.length_append, groups.masks.length_eq, size]
  have width : ('\x7b' :: (inner ++ ['\x7d'])).length = ('\x7b' :: (innerCode ++ ['\x7d'])).length := by
    simp [innerSize]
  refine tells_of_cut (by rw [List.length_append, front, width, ← List.length_append]) fun rest' =>
    ⟨_, nextCut?_block plain arrowless square round pairs rest', rfl, fun {body rest} raw shape offset => ?_⟩
  rw [List.append_assoc] at raw shape
  obtain ⟨m, found, marks, signature, terminator, block⟩ :=
    memberOf?_heading head other solid size
      (show (blockCut (groups.code ++ (above.text ++ code)) ('\x7b' :: (innerCode ++ ['\x7d']))).headingStop = _ from rfl)
      rfl raw shape offset
  have accessors : m.accessorText = '\x7b' :: (inner ++ ['\x7d']) := by
    have long : (groups.code ++ (above.text ++ code) ++ '\x7b' :: (innerCode ++ ['\x7d'])).length -
        (groups.code ++ (above.text ++ code)).length = ('\x7b' :: (inner ++ ['\x7d'])).length := by
      rw [List.length_append, Nat.add_sub_cancel_left, width]
    rw [block _ rfl, Source.raw_slice, raw, show (blockCut _ _).stop - _ = _ from long, ← front, List.drop_left]
    exact List.take_left
  rw [found]
  exact member m marks signature terminator accessors

end

end EndpointSurvey.Rendered
