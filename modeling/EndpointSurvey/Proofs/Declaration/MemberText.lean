/-
What the text of a member tells by itself. A body is read member by member, each from the front of what is left, and what
a member tells of the properties of its type does not depend on what follows. So a body made up of texts tells what they
tell, in order. A member that ends with a semicolon tells nothing, wherever an arrow stands in it.

Main statements: `Tells.append`, `tells_of_cut`, `tells_statement`, `tells_arrow` and `tells_unclosed`.
-/
import EndpointSurvey.Catalog.Description
import EndpointSurvey.Proofs.Document.Seen
import EndpointSurvey.Proofs.Rendered.Members

namespace EndpointSurvey

theorem memberOf?_terminator {offset : Nat} {body : Source} {cut : MemberCut} {m : MemberBlock}
    (h : memberOf? offset body cut = some m) : m.terminator = cut.terminator := by
  rw [memberOf?] at h
  split at h
  · cases h
  · split at h
    · cases h
    · cases h
      rfl

/-! ## What members tell -/

/-- the property that a member tells of, without its documentation -/
def MemberBlock.told (m : MemberBlock) : Option Property := (propertyOf m).value.map Property.withoutComment

/-- the properties that the members of a body tell of -/
def toldOf (offset : Nat) (body : Source) : List Property := (membersOf offset body).filterMap MemberBlock.told

theorem told_of_terminator {m : MemberBlock} (h : m.terminator ≠ .block) : m.told = none := by
  rw [MemberBlock.told, propertyOf]
  simp [h, Traced.value_pure]

theorem told_of_isMethod {m : MemberBlock} (h : m.isMethod = true) : m.told = none := by
  rw [MemberBlock.told, propertyOf]
  simp [h, Traced.value_pure]

/-- A text with this code tells of these properties wherever a body starts with it, and what follows is read as a body
of its own. -/
structure Tells (form code : Text) (told : List Property) : Prop where
  size : form.length = code.length
  reads : ∀ {body : Source} {rest rest' : Text}, body.raw = form ++ rest → body.code = code ++ rest' → ∀ offset,
    toldOf offset body = told ++ toldOf (offset + code.length) (body.drop code.length)

namespace Tells

variable {form code form' code' : Text} {told told' : List Property}

theorem nil : Tells [] [] [] := ⟨rfl, fun _ _ _ => by rw [List.nil_append, List.length_nil, Source.drop_zero]; rfl⟩

theorem append (h : Tells form code told) (h' : Tells form' code' told') :
    Tells (form ++ form') (code ++ code') (told ++ told') where
  size := by rw [List.length_append, List.length_append, h.size, h'.size]
  reads {body rest rest'} raw shape offset := by
    rw [List.append_assoc] at raw shape
    have behind : (body.drop code.length).raw = form' ++ rest := by rw [Source.raw_drop, raw, ← h.size, List.drop_left]
    have behindCode : (body.drop code.length).code = code' ++ rest' := by rw [Source.code_drop, shape, List.drop_left]
    rw [h.reads raw shape offset, h'.reads behind behindCode, Source.drop_drop, List.append_assoc, List.length_append, Nat.add_assoc]

theorem flatMap {α : Type} {text code : α → Text} {told : α → List Property} {as : List α}
    (h : ∀ a ∈ as, Tells (text a) (code a) (told a)) :
    Tells (as.flatMap text) (as.flatMap code) (as.flatMap told) := by
  induction as with
  | nil => exact nil
  | cons a as ih =>
    obtain ⟨here, later⟩ := List.forall_mem_cons.1 h
    rw [List.flatMap_cons, List.flatMap_cons, List.flatMap_cons]
    exact here.append (ih later)

end Tells

section
variable {form code : Text}

/-- A text that is cut off as one member tells what that member does. -/
theorem tells_of_cut {told : Option Property} (size : form.length = code.length)
    (cuts : ∀ rest', ∃ cut, nextCut? (code ++ rest') = some cut ∧ cut.stop = code.length ∧
      ∀ {body : Source} {rest : Text}, body.raw = form ++ rest → body.code = code ++ rest' →
        ∀ offset, (memberOf? offset body cut).bind MemberBlock.told = told) :
    Tells form code told.toList where
  size := size
  reads {body rest rest'} raw shape offset := by
    obtain ⟨cut, found, stop, member⟩ := cuts rest'
    have here := member raw shape offset
    rw [← shape] at found
    rw [toldOf, membersOf_some found, List.filterMap_append, stop, ← here]
    congr 1
    cases memberOf? offset body cut with
    | none => rfl
    | some m => cases told : m.told <;> simp [told]

/-- A member without a block tells nothing. -/
theorem tells_blockless (size : form.length = code.length)
    (cuts : ∀ rest', ∃ cut, nextCut? (code ++ rest') = some cut ∧ cut.stop = code.length ∧ cut.terminator ≠ .block) :
    Tells form code [] := by
  show Tells form code (none : Option Property).toList
  refine tells_of_cut size fun rest' => ?_
  obtain ⟨cut, found, stop, blockless⟩ := cuts rest'
  refine ⟨cut, found, stop, fun {body rest} _ _ offset => ?_⟩
  cases read : memberOf? offset body cut with
  | none => rfl
  | some m => exact told_of_terminator (memberOf?_terminator read ▸ blockless)

end

/-! ## Members that end with a semicolon -/

/-- no brace and no semicolon -/
def Plain (t : Text) : Prop := ∀ c ∈ t, c ≠ '\x7b' ∧ c ≠ '\x7d' ∧ c ≠ ';'

instance Plain.decidable (t : Text) : Decidable (Plain t) :=
  inferInstanceAs (Decidable (∀ c ∈ t, c ≠ '\x7b' ∧ c ≠ '\x7d' ∧ c ≠ ';'))

/-- the code of an expression: semicolons and braces stand only between braces that pair up -/
inductive Expression : Text → Prop where
  | nil : Expression []
  | cons {c : Char} {t : Text} (plain : c ≠ '\x7b' ∧ c ≠ '\x7d' ∧ c ≠ ';') (rest : Expression t) : Expression (c :: t)
  | group {inner t : Text} (pairs : Paired '\x7b' '\x7d' inner) (rest : Expression t) :
    Expression ('\x7b' :: (inner ++ '\x7d' :: t))

theorem Plain.expression {t : Text} (h : Plain t) : Expression t := by
  induction t with
  | nil => exact .nil
  | cons c cs ih =>
    obtain ⟨here, later⟩ := List.forall_mem_cons.1 h
    exact .cons here (ih later)

theorem Plain.paired {t : Text} (h : Plain t) : Paired '\x7b' '\x7d' t := .of_free fun c hc => ⟨(h c hc).1, (h c hc).2.1⟩

theorem Expression.paired {t : Text} (h : Expression t) : Paired '\x7b' '\x7d' t := by
  induction h with
  | nil => rfl
  | cons plain _ ih => exact ih.cons plain.1 plain.2.1
  | @group inner t pairs _ ih =>
    have whole := (pairs.group (by decide)).append ih
    rwa [List.cons_append, List.append_assoc] at whole

theorem cutFrom_end (offset brackets parens : Nat) (arrow : Option Nat) (rest : Text) :
    cutFrom offset brackets parens arrow (';' :: rest) =
      some ⟨arrow.getD offset, offset + 1, if arrow.isSome then .arrow else .semicolon, none,
        brackets > 0 || parens > 0⟩ := by
  rw [cutFrom.eq_def]
  simp

theorem cutFrom_passed {c : Char} (brace : c ≠ '\x7b') (semicolon : c ≠ ';') (offset brackets parens arrow : Nat)
    (cs : Text) : ∃ brackets' parens', cutFrom offset brackets parens (some arrow) (c :: cs) =
      cutFrom (offset + 1) brackets' parens' (some arrow) cs := by
  conv => enter [1, brackets', 1, parens', 1]; rw [cutFrom.eq_def]
  simp only [reduceCtorEq, and_false, if_false, if_neg brace, if_neg semicolon]
  split_ifs
  all_goals exact ⟨_, _, rfl⟩

theorem cutFrom_group {inner : Text} (pairs : Paired '\x7b' '\x7d' inner) (offset brackets parens arrow : Nat)
    (rest : Text) : cutFrom offset brackets parens (some arrow) ('\x7b' :: (inner ++ '\x7d' :: rest)) =
      cutFrom (offset + (inner.length + 1) + 1) brackets parens (some arrow) rest := by
  have closing : closing? '\x7b' '\x7d' ('\x7b' :: (inner ++ '\x7d' :: rest)) = some (inner.length + 1) :=
    (closing?_eq_some_iff (by decide)).2 ⟨inner, _, rfl, rfl, pairs⟩
  have behind : (inner ++ '\x7d' :: rest).drop (inner.length + 1) = rest := by
    rw [← List.drop_drop, List.drop_left]
    rfl
  conv => lhs; rw [cutFrom.eq_def]
  simp [closing, behind]

/-- Behind an arrow a member ends with the semicolon behind its expression. -/
theorem cutFrom_expression {t : Text} (h : Expression t) (rest : Text) (offset brackets parens arrow : Nat) :
    ∃ cut, cutFrom offset brackets parens (some arrow) (t ++ ';' :: rest) = some cut ∧
      cut.stop = offset + t.length + 1 ∧ cut.terminator = .arrow := by
  induction h generalizing offset brackets parens with
  | nil => exact ⟨_, cutFrom_end .., rfl, rfl⟩
  | @cons c t plain _ ih =>
    obtain ⟨brackets', parens', passed⟩ :=
      cutFrom_passed plain.1 plain.2.2 offset brackets parens arrow (t ++ ';' :: rest)
    have shift : offset + (c :: t).length + 1 = offset + 1 + t.length + 1 := by rw [List.length_cons]; omega
    rw [List.cons_append, passed, shift]
    exact ih ..
  | @group inner t pairs _ ih =>
    have shift : offset + ('\x7b' :: (inner ++ '\x7d' :: t)).length + 1 =
        offset + (inner.length + 1) + 1 + t.length + 1 := by
      simp only [List.length_cons, List.length_append]
      omega
    rw [List.cons_append, List.append_assoc, List.cons_append, cutFrom_group pairs, shift]
    exact ih ..

/-- Where no brace stands in front of a semicolon, a member ends with it and has no block. -/
theorem cutFrom_semicolon {t : Text} (h : Plain t) (rest : Text) (offset brackets parens : Nat) :
    ∃ cut, cutFrom offset brackets parens none (t ++ ';' :: rest) = some cut ∧
      cut.stop = offset + t.length + 1 ∧ cut.terminator ≠ .block := by
  induction t generalizing offset brackets parens with
  | nil => exact ⟨_, cutFrom_end .., rfl, by simp⟩
  | cons c cs ih =>
    obtain ⟨plain, later⟩ := List.forall_mem_cons.1 h
    have shift : offset + (c :: cs).length + 1 = offset + 1 + cs.length + 1 := by rw [List.length_cons]; omega
    rw [List.cons_append, cutFrom, if_neg plain.1, if_neg plain.2.2, shift]
    split_ifs with _ _ _ _ arrow
    · exact ih later ..
    · exact ih later ..
    · exact ih later ..
    · exact ih later ..
    · -- the arrow does not reach over the semicolon
      cases cs with
      | nil => exact absurd (Option.some.inj arrow.2.1) (by decide)
      | cons d ds =>
        obtain ⟨cut, found, stop, sort⟩ := cutFrom_expression (Plain.expression fun x hx => later x (.tail d hx)) rest
          (offset + 2) brackets parens offset
        refine ⟨cut, found, ?_, by rw [sort]; decide⟩
        rw [stop, List.length_cons]
        omega
    · exact ih later ..

/-- A text without arrows is passed over if no arrow starts at its end. -/
theorem arrowless_append {t u : Text} (free : ¬ ['=', '>'] <:+: t) (edge : u.head? ≠ some '>') :
    ∀ front rest, t = front ++ '=' :: rest → (rest ++ u).head? ≠ some '>' := by
  rintro front rest rfl
  cases rest with
  | nil => exact edge
  | cons d ds =>
    intro head
    obtain rfl : d = '>' := Option.some.inj head
    exact free ⟨front, ds, by simp⟩

section
variable {form code : Text}

/-- A statement without braces tells nothing. -/
theorem tells_statement (size : form.length = code.length) (plain : Plain code) :
    Tells (form ++ [';']) (code ++ [';']) [] := by
  refine tells_blockless (by simp [size]) fun rest' => ?_
  obtain ⟨cut, found, stop, blockless⟩ := cutFrom_semicolon plain rest' 0 0 0
  refine ⟨cut, ?_, by rw [stop]; simp, blockless⟩
  rwa [List.append_assoc, List.singleton_append]

/-- What has an arrow behind brackets that pair up tells nothing. -/
theorem tells_arrow {head expression : Text} (size : form.length = (head ++ ('=' :: '>' :: expression)).length)
    (plain : Plain head) (arrowless : ¬ ['=', '>'] <:+: head) (square : Paired '[' ']' head) (round : Paired '(' ')' head)
    (pass : Expression expression) :
    Tells (form ++ [';']) (head ++ ('=' :: '>' :: expression) ++ [';']) [] := by
  refine tells_blockless (by rw [List.length_append, size, ← List.length_append]) fun rest' => ?_
  obtain ⟨cut, found, stop, sort⟩ := cutFrom_expression pass rest' (0 + head.length + 2) 0 0 (0 + head.length)
  have front := cutFrom_stretch (u := '=' :: '>' :: (expression ++ ';' :: rest'))
    (fun c hc => ⟨(plain c hc).1, (plain c hc).2.2⟩) (arrowless_append arrowless nofun) square round 0
  have arrow : cutFrom (0 + head.length) 0 0 none ('=' :: '>' :: (expression ++ ';' :: rest')) =
      cutFrom (0 + head.length + 2) 0 0 (some (0 + head.length)) (expression ++ ';' :: rest') := by
    conv => lhs; rw [cutFrom.eq_def]
    simp
  refine ⟨cut, ?_, ?_, by rw [sort]; nofun⟩
  · rw [nextCut?, List.append_assoc, List.append_assoc]
    simp only [List.cons_append, List.nil_append]
    rw [front, arrow, found]
  · rw [stop]
    simp only [List.length_append, List.length_cons, List.length_nil]
    omega

end

/-! ## Members with a block -/

/-- Where no arrow precedes it, a block ends a member, whatever brackets and parentheses are open. -/
theorem cutFrom_block {inner : Text} (pairs : Paired '\x7b' '\x7d' inner) (offset brackets parens : Nat) (rest : Text) :
    cutFrom offset brackets parens none ('\x7b' :: (inner ++ '\x7d' :: rest)) =
      some ⟨offset, offset + (inner.length + 1) + 1, .block, some offset, brackets > 0 || parens > 0⟩ := by
  have closing : closing? '\x7b' '\x7d' ('\x7b' :: (inner ++ '\x7d' :: rest)) = some (inner.length + 1) :=
    (closing?_eq_some_iff (by decide)).2 ⟨inner, rest, rfl, rfl, pairs⟩
  rw [cutFrom.eq_def]
  simp [closing]

/-- **A brace behind an open bracket or parenthesis ends a member**, and the member is passed over. So what is behind the
block is read as the front of the next member, such as the rest of an attribute with an array for an argument. -/
theorem tells_unclosed {form code inner innerCode : Text} {brackets parens : Nat}
    (size : form.length = code.length) (innerSize : inner.length = innerCode.length) (plain : Plain code)
    (arrowless : ¬ ['=', '>'] <:+: code) (square : nesting '[' ']' 0 code = some brackets)
    (round : nesting '(' ')' 0 code = some parens) (unclosed : 0 < brackets ∨ 0 < parens)
    (pairs : Paired '\x7b' '\x7d' innerCode) :
    Tells (form ++ '\x7b' :: (inner ++ ['\x7d'])) (code ++ '\x7b' :: (innerCode ++ ['\x7d'])) [] := by
  show Tells _ _ (none : Option Property).toList
  refine tells_of_cut (by simp [size, innerSize]) fun rest' => ?_
  have front := cutFrom_stretch (u := '\x7b' :: (innerCode ++ '\x7d' :: rest'))
    (fun c hc => ⟨(plain c hc).1, (plain c hc).2.2⟩) (arrowless_append arrowless nofun) square round 0
  refine ⟨⟨0 + code.length, 0 + code.length + (innerCode.length + 1) + 1, .block, some (0 + code.length),
    brackets > 0 || parens > 0⟩, ?_, ?_, fun {body rest} _ _ offset => ?_⟩
  · rw [← cutFrom_block pairs (0 + code.length) brackets parens rest', ← front, nextCut?]
    simp
  · simp
    omega
  · have skipped : (decide (brackets > 0) || decide (parens > 0)) = true := by simpa using unclosed
    rw [memberOf?]
    simp [skipped]

end EndpointSurvey
