/-
The items of a list between its commas, told lexeme by lexeme. A splitter, which goes by characters and by quotes, cuts
a stretch of plain lexemes in the same places.

Main statements: `passes?_literal` (a splitter passes over a plain literal), `segmentsFrom_items` (the segments of a
stretch are its items), `items_settle` (a stretch settles item by item) and `splitTop_items`.
-/
import EndpointSurvey.Proofs.Source.Splitting
import EndpointSurvey.Proofs.Source.Stretch

namespace EndpointSurvey

namespace Lexeme

variable {l : Lexeme} {ls : List Lexeme}

/-! ## Literals in the eyes of a splitter -/

section
variable {separator : Char} {angle : Bool} {x body rest : Text}

theorem passes?_regularBody (h : regularBody x = (body, '"' :: rest)) (depth : Nat) (before : Option Char) :
    ∃ last, Splitter.passes? separator angle ⟨.regular, depth, before⟩ body = some ⟨.regular, depth, last⟩ := by
  fun_induction regularBody x generalizing body rest before with
  | case1 => cases h
  | case2 c cs b r found ih =>
    cases h
    obtain ⟨last, inside⟩ := ih found (some c)
    refine ⟨last, ?_⟩
    rw [Splitter.passes?, Splitter.passes?]
    simpa [Splitter.cutsAt, Splitter.outside, Splitter.step] using inside
  | case3 c cs hidden ends =>
    cases h
    exact ⟨before, rfl⟩
  | case4 c cs hidden inside b r found ih =>
    cases h
    obtain ⟨last, later⟩ := ih found (some c)
    have visible : c ≠ '\\' := by
      rintro rfl
      cases cs with
      | nil => cases found
      | cons d ds => exact hidden d ds rfl rfl
    simp only [Bool.or_eq_true, decide_eq_true_eq, not_or] at inside
    refine ⟨last, ?_⟩
    rw [Splitter.passes?]
    simpa [Splitter.cutsAt, Splitter.outside, Splitter.step, visible, inside.1] using later

theorem passes?_verbatimBody (h : verbatimBody x = (body, '"' :: rest)) (depth : Nat) (before : Option Char) :
    ∃ last, Splitter.passes? separator angle ⟨.verbatim, depth, before⟩ body = some ⟨.verbatim, depth, last⟩ := by
  fun_induction verbatimBody x generalizing body rest before with
  | case1 => cases h
  | case2 cs b r found ih =>
    cases h
    obtain ⟨last, inside⟩ := ih found (some '"')
    refine ⟨last, ?_⟩
    rw [Splitter.passes?, Splitter.passes?]
    simpa [Splitter.cutsAt, Splitter.outside, Splitter.step] using inside
  | case3 cs doubled =>
    cases h
    exact ⟨before, rfl⟩
  | case4 c cs doubled inside b r found ih =>
    cases h
    obtain ⟨last, later⟩ := ih found (some c)
    refine ⟨last, ?_⟩
    rw [Splitter.passes?]
    simpa [Splitter.cutsAt, Splitter.outside, Splitter.step, inside] using later

theorem passes?_characterBody {room : Nat} (h : characterBody? room x = some (body, rest)) (free : '"' ∉ body)
    (depth : Nat) (before : Option Char) :
    ∃ last, Splitter.passes? separator angle ⟨.character, depth, before⟩ body = some ⟨.character, depth, last⟩ := by
  fun_induction characterBody? room x generalizing body rest before with
  | case1 => cases h
  | case2 => cases h
  | case3 room c cs ih =>
    obtain ⟨⟨b, r⟩, found, e⟩ := Option.map_eq_some_iff.1 h
    cases e
    simp only [List.mem_cons, not_or] at free
    obtain ⟨last, inside⟩ := ih found free.2.2 (some c)
    refine ⟨last, ?_⟩
    rw [Splitter.passes?, Splitter.passes?]
    simpa [Splitter.cutsAt, Splitter.outside, Splitter.step] using inside
  | case4 room cs hidden =>
    cases h
    exact ⟨before, rfl⟩
  | case5 => cases h
  | case6 room c cs hidden inside line ih =>
    obtain ⟨⟨b, r⟩, found, e⟩ := Option.map_eq_some_iff.1 h
    cases e
    simp only [List.mem_cons, not_or] at free
    obtain ⟨last, later⟩ := ih found free.2 (some c)
    have visible : c ≠ '\\' := by
      rintro rfl
      cases cs with
      | nil => cases room <;> cases found
      | cons d ds => exact hidden d ds rfl rfl
    refine ⟨last, ?_⟩
    rw [Splitter.passes?]
    simpa [Splitter.cutsAt, Splitter.outside, Splitter.step, visible, Ne.symm free.1, inside] using later

/-- the splitter stands outside quotes in front of the text, where a quote would start a regular string -/
def Resting (s : Splitter) (t : Text) : Prop :=
  (s.quote = .outside ∨ s.quote = .verbatimClosing ∧ t.head? ≠ some '"') ∧ (s.before = some '@' → t.head? ≠ some '"')

theorem resting_start (t : Text) : Resting .start t := ⟨.inl rfl, fun e => absurd e (by decide)⟩

theorem Resting.outside {s : Splitter} {c : Char} {t : Text} (h : Resting s (c :: t)) : s.outside c = true := by
  rcases h.1 with out | ⟨closing, other⟩
  · simp [Splitter.outside, out]
  · simp [Splitter.outside, closing, show c ≠ '"' from fun e => other (congrArg some e)]

theorem Resting.step {s : Splitter} {c : Char} {t : Text} (h : Resting s (c :: t)) :
    s.step angle c = s.stepOutside angle c := by
  rcases h.1 with out | ⟨closing, other⟩
  · simp [Splitter.step, out]
  · simp [Splitter.step, closing, show c ≠ '"' from fun e => other (congrArg some e)]

theorem Resting.passes?_even {s : Splitter} {c : Char} {t : Text} (h : Resting s (c :: t))
    (even : Splitter.evenMark angle c = true) (other : c ≠ ',') (u : Text) :
    s.passes? ',' angle (c :: u) = Splitter.passes? ',' angle ⟨.outside, s.depth, some c⟩ u := by
  rw [Splitter.passes?, h.step, Splitter.stepOutside_even even, if_neg (by simp [Splitter.cutsAt, other])]

/-- A splitter tells the strings apart by their opening marks. -/
theorem passes?_marks {s : Splitter} {opening t : Text} (h : Resting s (opening ++ t)) :
    (opening ∈ regularMarks → s.passes? ',' angle opening = some ⟨.regular, s.depth, some '"'⟩) ∧
      (opening ∈ verbatimMarks → s.passes? ',' angle opening = some ⟨.verbatim, s.depth, some '"'⟩) := by
  have dollar : Splitter.evenMark angle '$' = true := by cases angle <;> decide
  have at_ : Splitter.evenMark angle '@' = true := by cases angle <;> decide
  have quote : ∀ before, Splitter.passes? ',' angle ⟨.outside, s.depth, before⟩ ['"'] =
      some ⟨if before = some '@' then .verbatim else .regular, s.depth, some '"'⟩ := by
    intro before
    simp [Splitter.passes?, Splitter.cutsAt, Splitter.step, Splitter.stepOutside]
  have inner : ∀ before u,
      Resting ⟨.outside, s.depth, before⟩ ('$' :: u) ∧ Resting ⟨.outside, s.depth, before⟩ ('@' :: u) :=
    fun _ _ => ⟨⟨.inl rfl, by simp⟩, .inl rfl, by simp⟩
  constructor
  · intro marks
    simp only [regularMarks, List.mem_cons, List.not_mem_nil, or_false] at marks
    rcases marks with rfl | rfl | rfl
    · have single : s.before ≠ some '@' := fun mark => h.2 mark rfl
      rw [Splitter.passes?, h.step, Splitter.stepOutside, if_neg single]
      simp [Splitter.passes?, Splitter.cutsAt]
    · rw [h.passes?_even dollar (by decide), quote]
      rfl
    · rw [h.passes?_even dollar (by decide), (inner _ []).1.passes?_even dollar (by decide), quote]
      rfl
  · intro marks
    simp only [verbatimMarks, List.mem_cons, List.not_mem_nil, or_false] at marks
    rcases marks with rfl | rfl | rfl
    · rw [h.passes?_even at_ (by decide), quote]
      rfl
    · rw [h.passes?_even at_ (by decide), (inner _ []).2.passes?_even at_ (by decide), quote]
      rfl
    · rw [h.passes?_even dollar (by decide), (inner _ []).2.passes?_even at_ (by decide), quote]
      rfl

/-- A splitter passes over a plain literal in one piece and rests behind it. -/
theorem passes?_literal {t rest : Text} (h : PlainLiteral t l rest) {s : Splitter} (resting : Resting s t) :
    ∃ s', s.passes? ',' angle l.raw = some s' ∧ s'.depth = s.depth ∧ Resting s' rest := by
  cases h with
  | @regular opening body x rest marks whole inside two =>
    subst whole
    obtain ⟨last, passed⟩ := @passes?_regularBody ',' angle _ _ _ inside s.depth (some '"')
    refine ⟨⟨.outside, s.depth, '"'⟩, ?_, rfl, .inl rfl, fun e => absurd e (by simp)⟩
    rw [raw, Splitter.passes?_append, Splitter.passes?_append, (passes?_marks resting).1 marks, Option.bind_some,
      passed]
    simp [Splitter.passes?, Splitter.cutsAt, Splitter.outside, Splitter.step]
  | @verbatim opening body x rest marks whole inside =>
    subst whole
    obtain ⟨last, passed⟩ := @passes?_verbatimBody ',' angle _ _ _ inside s.depth (some '"')
    refine ⟨⟨.verbatimClosing, s.depth, '"'⟩, ?_, rfl, .inr ⟨rfl, ?_⟩, fun e => absurd e (by simp)⟩
    · rw [raw, Splitter.passes?_append, Splitter.passes?_append, (passes?_marks resting).2 marks, Option.bind_some,
        passed]
      simp [Splitter.passes?, Splitter.cutsAt, Splitter.outside, Splitter.step]
    · simpa using verbatimBody_rest inside
  | @character body x rest whole free inside =>
    subst whole
    obtain ⟨last, passed⟩ := @passes?_characterBody ',' angle _ _ _ _ inside free s.depth (some '\'')
    refine ⟨⟨.outside, s.depth, '\''⟩, ?_, rfl, .inl rfl, fun e => absurd e (by simp)⟩
    have opened : s.passes? ',' angle ['\''] = some ⟨.character, s.depth, some '\''⟩ := by
      rw [Splitter.passes?, resting.step]
      simp [Splitter.passes?, Splitter.cutsAt, Splitter.stepOutside]
    rw [raw, Splitter.passes?_append, Splitter.passes?_append, opened, Option.bind_some, passed]
    simp [Splitter.passes?, Splitter.cutsAt, Splitter.outside, Splitter.step]

end

/-! ## Items between commas -/

/-- the depth of brackets behind a lexeme; nothing in a literal or a remark is a bracket -/
def depthAfter (angle : Bool) (depth : Nat) : Lexeme → Nat
  | code c => if opens angle c then depth + 1 else if EndpointSurvey.closes angle c then depth - 1 else depth
  | _ => depth

/-- the items between the commas of code outside brackets, as seen from a depth -/
def items (angle : Bool) (depth : Nat) : List Lexeme → List (List Lexeme)
  | [] => [[]]
  | l :: ls =>
    if l = code ',' ∧ depth = 0 then [] :: items angle depth ls
    else (items angle (depthAfter angle depth l) ls).modifyHead (l :: ·)

variable {angle : Bool} {depth : Nat}

theorem exists_items (angle : Bool) (depth : Nat) (ls : List Lexeme) :
    ∃ first rest, items angle depth ls = first :: rest := by
  induction ls generalizing depth with
  | nil => exact ⟨_, _, rfl⟩
  | cons l ls ih =>
    rw [items]
    split
    · exact ⟨_, _, rfl⟩
    · obtain ⟨first, rest, e⟩ := ih (depthAfter angle depth l)
      exact ⟨_, _, by rw [e]; rfl⟩

theorem items_comma (angle : Bool) (ls : List Lexeme) : items angle 0 (code ',' :: ls) = [] :: items angle 0 ls := by
  rw [items, if_pos ⟨rfl, rfl⟩]

theorem items_other (h : l ≠ code ',' ∨ depth ≠ 0) :
    items angle depth (l :: ls) = (items angle (depthAfter angle depth l) ls).modifyHead (l :: ·) := by
  rw [items, if_neg (not_and_or.2 h)]

theorem depthAfter_settled (angle : Bool) (depth : Nat) (l : Lexeme) :
    depthAfter angle depth l.settled = depthAfter angle depth l := by
  cases l <;> rfl

theorem depthAfter_gap (h : l.gap = true) (angle : Bool) (depth : Nat) : depthAfter angle depth l = depth := by
  cases l with
  | code c =>
    have even := Splitter.evenMark_of_blank (show blank c = true from h) angle
    simp only [Splitter.evenMark, Bool.and_eq_true, Bool.not_eq_true'] at even
    simp [depthAfter, even.1.2, even.2]
  | remark body => rfl
  | literal opening body closing => cases h

theorem items_settle_cons {first : List Lexeme} {rest : List (List Lexeme)} (h : items angle depth ls = first :: rest)
    (afterBlank : Bool) :
    items angle depth (settle afterBlank ls) = settle afterBlank first :: rest.map (settle false) := by
  induction ls generalizing depth first rest afterBlank with
  | nil =>
    cases h
    rfl
  | cons l ls ih =>
    by_cases cut : l = code ',' ∧ depth = 0
    · obtain ⟨rfl, rfl⟩ := cut
      rw [items_comma, List.cons.injEq] at h
      obtain ⟨rfl, rfl⟩ := h
      obtain ⟨f, r, e⟩ := exists_items angle 0 ls
      rw [settle_solid (by decide), settled_code, items_comma, ih e, e]
      rfl
    · have stays := not_and_or.1 cut
      obtain ⟨f, r, e⟩ := exists_items angle (depthAfter angle depth l) ls
      rw [items_other stays, e, List.modifyHead_cons, List.cons.injEq] at h
      obtain ⟨rfl, rfl⟩ := h
      cases gap : l.gap with
      | false =>
        have stays' : l.settled ≠ code ',' ∨ depth ≠ 0 := stays.imp_left (mt settled_eq_code.1)
        rw [settle_solid gap, items_other stays', depthAfter_settled, ih e, settle_solid gap, List.modifyHead_cons]
      | true =>
        rw [depthAfter_gap gap] at e
        cases afterBlank with
        | false =>
          rw [(settle_gap gap ls).1, items_other (.inl (by decide)), depthAfter_gap (by decide), ih e,
            (settle_gap gap f).1, List.modifyHead_cons]
        | true => rw [(settle_gap gap ls).2, ih e, (settle_gap gap f).2]

/-- **A stretch settles item by item.** -/
theorem items_settle (angle : Bool) (depth : Nat) (ls : List Lexeme) :
    items angle depth (settle false ls) = (items angle depth ls).map (settle false) := by
  obtain ⟨first, rest, e⟩ := exists_items angle depth ls
  rw [items_settle_cons e, e, List.map_cons]

/-- What stands first in a stretch: a character of code that starts nothing else, a remark, or a plain literal. -/
theorem Stretch.first (h : Stretch (l :: ls)) :
    (∃ c lineBlank, l = code c ∧ special? lineBlank (c :: text ls) = none) ∨ (∃ body, l = remark body) ∨
      PlainLiteral (text (l :: ls)) l (text ls) := by
  obtain ⟨lineBlank, lexed⟩ := h.lexed
  have plain := h.plain l List.mem_cons_self
  cases whole : text (l :: ls) with
  | nil =>
    rw [whole, lexFrom_nil] at lexed
    cases lexed
  | cons c cs =>
    rw [whole] at lexed
    cases found : special? lineBlank (c :: cs) with
    | none =>
      rw [lexFrom_none found, List.cons.injEq] at lexed
      obtain ⟨rfl, lexed⟩ := lexed
      obtain rfl : text ls = cs := (List.cons.inj whole).2
      exact .inl ⟨c, lineBlank, rfl, found⟩
    | some p =>
      obtain ⟨l', rest⟩ := p
      rw [lexFrom_some found, List.cons.injEq] at lexed
      obtain ⟨rfl, lexed⟩ := lexed
      obtain rfl : rest = text ls := by rw [← lexed, text_lexFrom]
      rcases special?_shape found with ⟨body, rfl, -⟩ | ⟨opening, body, closing, rfl, -⟩
      · exact .inr (.inl ⟨body, rfl⟩)
      · exact .inr (.inr (plainLiteral_of_special? found plain))

/-- A character of code leaves a splitter at rest. -/
theorem Resting.code {lineBlank : Bool} {c : Char} {t : Text} (plain : (code c).Plain)
    (none : special? lineBlank (c :: t) = none) {s : Splitter} (h : Resting s (c :: t)) :
    Resting (s.step angle c) t ∧ (s.step angle c).depth = depthAfter angle s.depth (Lexeme.code c) ∧
      s.cutsAt ',' angle c = decide (Lexeme.code c = Lexeme.code ',' ∧ s.depth = 0) := by
  have ahead : some c = some '@' → t.head? ≠ some '"' := by
    rintro ⟨⟩ quoted
    obtain ⟨cs, rfl⟩ := List.head?_eq_some_iff.1 quoted
    cases none
  have quote := ne_quote_of_none none
  have cuts : s.cutsAt ',' angle c = decide (Lexeme.code c = Lexeme.code ',' ∧ s.depth = 0) := by
    by_cases comma : c = ','
    · subst comma
      cases angle <;> simp [Splitter.cutsAt, h.outside, opens, EndpointSurvey.closes, Bool.beq_eq_decide_eq]
    · simp [Splitter.cutsAt, comma]
  refine ⟨?_, ?_, cuts⟩ <;> rw [h.step, Splitter.stepOutside, if_neg quote, if_neg plain.1]
  · split
    · exact ⟨.inl rfl, ahead⟩
    · split <;> exact ⟨.inl rfl, ahead⟩
  · rw [depthAfter]
    split
    · rfl
    · split <;> rfl

/-- The segments of a stretch without remarks are the texts of its items. -/
theorem segmentsFrom_items (h : Stretch ls) (bare : ∀ body, remark body ∉ ls) {s : Splitter}
    (resting : Resting s (text ls)) : segmentsFrom ',' angle s (text ls) = (items angle s.depth ls).map text := by
  -- the splitter rests in front of every lexeme, which carries the induction from one to the next
  induction ls generalizing s with
  | nil => rfl
  | cons l ls ih =>
    have bare' : ∀ body, remark body ∉ ls := fun body member => bare body (List.mem_cons_of_mem l member)
    rcases h.first with ⟨c, lineBlank, rfl, none⟩ | ⟨body, rfl⟩ | found
    · obtain ⟨rests, depth, cuts⟩ := @Resting.code angle _ _ _ (h.plain _ List.mem_cons_self) none _ resting
      have rest := ih h.tail bare' rests
      rw [text_cons, raw, List.singleton_append, segmentsFrom, cuts, rest, depth]
      by_cases cut : code c = code ',' ∧ s.depth = 0
      · rw [decide_eq_true cut, if_pos rfl]
        obtain ⟨⟨⟩, flat⟩ := cut
        rw [flat, items_comma, show depthAfter angle 0 (code ',') = 0 by cases angle <;> rfl]
        rfl
      · rw [decide_eq_false cut, if_neg Bool.false_ne_true, items_other (not_and_or.1 cut)]
        obtain ⟨f, r, e⟩ := exists_items angle (depthAfter angle s.depth (code c)) ls
        rw [e]
        rfl
    · exact absurd List.mem_cons_self (bare body)
    · obtain ⟨s', passed, depth, rests⟩ := @passes?_literal _ angle _ _ found _ resting
      obtain ⟨f, r, e⟩ := exists_items angle s.depth ls
      have rest := ih h.tail bare' rests
      rw [depth, e] at rest
      have inside : l ≠ code ',' ∧ depthAfter angle s.depth l = s.depth := by
        cases found <;> exact ⟨by simp, rfl⟩
      rw [text_cons, Splitter.segmentsFrom_passes passed rest, items_other (.inl inside.1), inside.2, e]
      rfl

theorem exists_of_items {first : List Lexeme} {rest : List (List Lexeme)} (h : items angle depth ls = first :: rest) :
    first <+: ls ∧ ∀ item ∈ rest, item <:+: ls := by
  induction ls generalizing depth first rest with
  | nil =>
    cases h
    exact ⟨List.prefix_refl _, by simp⟩
  | cons l ls ih =>
    by_cases cut : l = code ',' ∧ depth = 0
    · obtain ⟨rfl, rfl⟩ := cut
      rw [items_comma, List.cons.injEq] at h
      obtain ⟨rfl, rfl⟩ := h
      obtain ⟨f, r, e⟩ := exists_items angle 0 ls
      obtain ⟨here, later⟩ := ih e
      refine ⟨List.nil_prefix, fun item member => ?_⟩
      rw [e, List.mem_cons] at member
      rcases member with rfl | member
      · exact here.isInfix.trans (List.suffix_cons _ _).isInfix
      · exact (later item member).trans (List.suffix_cons _ _).isInfix
    · obtain ⟨f, r, e⟩ := exists_items angle (depthAfter angle depth l) ls
      rw [items_other (not_and_or.1 cut), e, List.modifyHead_cons, List.cons.injEq] at h
      obtain ⟨rfl, rfl⟩ := h
      obtain ⟨here, later⟩ := ih e
      exact ⟨List.cons_prefix_cons.2 ⟨rfl, here⟩, fun item member =>
        (later item member).trans (List.suffix_cons _ _).isInfix⟩

/-- An item is a stretch of its list. -/
theorem infix_of_mem_items {item : List Lexeme} (member : item ∈ items angle depth ls) : item <:+: ls := by
  obtain ⟨first, rest, e⟩ := exists_items angle depth ls
  obtain ⟨here, later⟩ := exists_of_items e
  rw [e, List.mem_cons] at member
  rcases member with rfl | member
  · exact here.isInfix
  · exact later item member

theorem Stretch.item {item : List Lexeme} (h : Stretch ls) (member : item ∈ items angle depth ls) : Stretch item := by
  obtain ⟨pre, suf, rfl⟩ := infix_of_mem_items member
  exact h.front.back

/-- **A list cut at its commas.** Settled and cut at the commas outside brackets and quotes, a stretch gives its items,
each with comments blanked and single spaces between the words; what is read of an empty text does not count. -/
theorem splitTop_items {α : Type} (h : Stretch ls) (angle : Bool) {read : Text → Option α} (empty : read [] = none) :
    (splitTop ',' angle (text (settle false ls))).filterMap read =
      (items angle 0 ls).filterMap fun item => read (shown item).collapse := by
  have bare : ∀ body, remark body ∉ settle false ls := by
    intro body member
    rcases mem_settle member with e | ⟨l, -, gap, e⟩
    · cases e
    · rw [← settled_gap, ← e] at gap
      cases gap
  have cut : segments ',' angle (text (settle false ls)) = (items angle 0 ls).map (text ∘ settle false) := by
    rw [← List.map_map, ← items_settle]
    exact segmentsFrom_items (h.settle false) bare (resting_start _)
  have parts : (segments ',' angle (text (settle false ls))).map Text.trim =
      (items angle 0 ls).map fun item => (shown item).collapse := by
    rw [cut, List.map_map]
    refine List.map_congr_left fun item member => ?_
    rw [Function.comp, Function.comp, text_settle (h.item member).plain, Text.trim_settle, shown]
  have whole : (items angle 0 ls).filterMap (fun item => read (shown item).collapse) =
      ((items angle 0 ls).map fun item => (shown item).collapse).filterMap read := List.filterMap_map.symm
  rw [filterMap_splitTop empty, parts, whole]

end Lexeme

end EndpointSurvey
