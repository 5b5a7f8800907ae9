/-
Regular strings as they are rendered: their bodies stay within their quotes, in the eyes of the lexer as of a splitter,
and they are read as the string written just when all their spellings are understood.

Main statements: `closedBody`, `passes?_quoted`, `unescape_body` and `reading_eq_value_iff`; by `understood_write`
every string can be written so that it is understood.
-/
import EndpointSurvey.Proofs.Rendered.Basic
import EndpointSurvey.Proofs.Source.Masked
import EndpointSurvey.Proofs.Source.Splitting

namespace EndpointSurvey

/-! ## Stretches without quotes and backslashes -/

theorem regularBody_plain {t x : Text} (h : ∀ c ∈ t, Rendered.bodyChar c = true) :
    Lexeme.regularBody (t ++ x) = (t ++ (Lexeme.regularBody x).1, (Lexeme.regularBody x).2) := by
  induction t with
  | nil => rfl
  | cons c cs ih =>
    have plain := h c List.mem_cons_self
    simp only [Rendered.bodyChar, Bool.and_eq_true, bne_iff_ne] at plain
    rw [List.cons_append, Lexeme.regularBody.eq_def]
    split
    · next e => cases e
    · next e => exact absurd (List.cons.inj e).1 plain.1.2
    · next e =>
      cases e
      rw [if_neg (by simp [plain]), ih fun d hd => h d (List.mem_cons_of_mem c hd)]
      rfl

theorem unescape_plain_append {t : Text} (free : '\\' ∉ t) (x : Text) : unescape (t ++ x) = t ++ unescape x := by
  induction t with
  | nil => rfl
  | cons c cs ih =>
    rw [List.mem_cons, not_or] at free
    rw [List.cons_append, unescape.eq_def]
    split
    · next e => exact absurd (List.cons.inj e).1.symm free.1
    · next e => cases e; rw [ih free.2]; rfl
    · next e => cases e

theorem passes?_plain {separator : Char} {angle : Bool} {t : Text} (h : ∀ c ∈ t, Rendered.bodyChar c = true) (depth : Nat)
    (before : Option Char) : ∃ last, Splitter.passes? separator angle ⟨.regular, depth, before⟩ t =
      some ⟨.regular, depth, last⟩ := by
  induction t generalizing before with
  | nil => exact ⟨before, rfl⟩
  | cons c cs ih =>
    have plain := h c List.mem_cons_self
    simp only [Rendered.bodyChar, Bool.and_eq_true, bne_iff_ne] at plain
    obtain ⟨last, tail⟩ := ih (fun d hd => h d (List.mem_cons_of_mem c hd)) (some c)
    refine ⟨last, ?_⟩
    rw [Splitter.passes?]
    simpa [Splitter.cutsAt, Splitter.outside, Splitter.step, plain] using tail

namespace Rendered

theorem bodyChar_of_digits {digits : Text} {n value : Nat}
    (h : digits.foldlM (fun n c => (Json.hexValue? c).map fun digit => 16 * n + digit) n = some value) :
    ∀ c ∈ digits, bodyChar c = true := by
  induction digits generalizing n with
  | nil => simp
  | cons c cs ih =>
    rw [List.foldlM_cons] at h
    obtain ⟨next, digit, rest⟩ := Option.bind_eq_some_iff.1 h
    refine List.forall_mem_cons.2 ⟨?_, ih rest⟩
    have not {d : Char} (other : Json.hexValue? d = none) : c ≠ d := by
      rintro rfl
      rw [other] at digit
      cases digit
    simp [bodyChar, not (d := '"') (by decide), not (d := '\\') (by decide), not (d := '\n') (by decide)]

/-- A spelling is a stretch of characters that stand for themselves, maybe behind a backslash and another character. -/
theorem Spelling.shape (s : Spelling) : ∃ t : Text, (∀ c ∈ t, bodyChar c = true) ∧
    ((s.text = t ∧ s.reading = t) ∨
      ∃ mark, mark ≠ '\n' ∧ s.text = '\\' :: mark :: t ∧ s.reading = escapedChar mark :: t) := by
  cases s with
  | plain c free => exact ⟨[c], by simpa using free, .inl ⟨rfl, rfl⟩⟩
  | escape mark value listed =>
    refine ⟨[], by simp, .inr ⟨mark, ?_, rfl, rfl⟩⟩
    rintro rfl
    exact absurd listed (by simp [escapes])
  | point mark digits value listed digits_value =>
    refine ⟨digits, bodyChar_of_digits digits_value, .inr ⟨mark, ?_, rfl, rfl⟩⟩
    rintro rfl
    exact absurd listed (by simp [pointMarks])

namespace Literal

variable {l : Literal}

theorem body_cons (s : Spelling) (l : Literal) : body (s :: l) = s.text ++ body l := List.flatMap_cons

theorem value_cons (s : Spelling) (l : Literal) : value (s :: l) = s.value :: value l := rfl

theorem reading_cons (s : Spelling) (l : Literal) : reading (s :: l) = s.reading ++ reading l := List.flatMap_cons

/-- The body of a literal ends at its closing quote. -/
theorem closedBody (l : Literal) : ClosedBody l.body := by
  intro rest
  induction l with
  | nil => simp [body, Lexeme.regularBody]
  | cons s l ih =>
    obtain ⟨t, plain, ⟨text, -⟩ | ⟨mark, -, text, -⟩⟩ := s.shape
    · rw [body_cons, text, List.append_assoc, regularBody_plain plain, ih]
    · rw [body_cons, text, List.append_assoc, List.cons_append, List.cons_append, Lexeme.regularBody,
        regularBody_plain plain, ih]
      rfl

theorem feed_not_mem (l : Literal) : '\n' ∉ l.body := by
  induction l with
  | nil => simp [body]
  | cons s l ih =>
    rw [body_cons, List.mem_append, not_or]
    refine ⟨?_, ih⟩
    obtain ⟨t, plain, ⟨text, -⟩ | ⟨mark, feed, text, -⟩⟩ := s.shape
    · rw [text]
      exact fun hm => absurd (plain _ hm) (by decide)
    · rw [text, List.mem_cons, List.mem_cons, not_or, not_or]
      exact ⟨by decide, Ne.symm feed, fun hm => absurd (plain _ hm) (by decide)⟩

/-- The code of a literal's body is blank. -/
theorem blankOut_body (l : Literal) : Lexeme.blankOut l.body = List.replicate l.body.length ' ' := by
  have spaces : ∀ t : Text, '\n' ∉ t → Lexeme.blankOut t = List.replicate t.length ' ' := by
    intro t feed
    induction t with
    | nil => rfl
    | cons c cs ih =>
      simp only [List.mem_cons, not_or] at feed
      rw [Lexeme.blankOut, List.map_cons, if_neg (Ne.symm feed.1), List.length_cons, List.replicate_succ]
      exact congrArg (' ' :: ·) (ih feed.2)
  exact spaces l.body (feed_not_mem l)

/-- **What a literal is taken for**: escapes are taken for what the survey knows them as, and digits for themselves. -/
theorem unescape_body (l : Literal) : unescape l.body = l.reading := by
  induction l with
  | nil => simp [body, reading, unescape]
  | cons s l ih =>
    obtain ⟨t, plain, shape⟩ := s.shape
    have free : '\\' ∉ t := fun hm => absurd (plain _ hm) (by decide)
    rw [body_cons, reading_cons]
    rcases shape with ⟨text, read⟩ | ⟨mark, feed, text, read⟩
    · rw [text, read, unescape_plain_append free, ih]
    · rw [text, read, List.cons_append, List.cons_append, unescape, if_neg feed, unescape_plain_append free, ih]
      rfl

section
variable {separator : Char} {angle : Bool}

theorem passes?_body (l : Literal) (depth : Nat) (before : Option Char) :
    ∃ last, Splitter.passes? separator angle ⟨.regular, depth, before⟩ l.body = some ⟨.regular, depth, last⟩ := by
  induction l generalizing before with
  | nil => exact ⟨before, rfl⟩
  | cons s l ih =>
    obtain ⟨t, plain, ⟨text, -⟩ | ⟨mark, -, text, -⟩⟩ := s.shape
    · obtain ⟨mid, first⟩ : ∃ last, Splitter.passes? separator angle ⟨.regular, depth, before⟩ t = _ :=
        passes?_plain plain depth before
      obtain ⟨last, tail⟩ := ih mid
      exact ⟨last, by rw [body_cons, text, Splitter.passes?_append, first, Option.bind_some, tail]⟩
    · obtain ⟨mid, first⟩ : ∃ last, Splitter.passes? separator angle ⟨.regular, depth, some mark⟩ t = _ :=
        passes?_plain plain depth (some mark)
      obtain ⟨last, tail⟩ := ih mid
      refine ⟨last, ?_⟩
      have both : Splitter.passes? separator angle ⟨.regular, depth, mid⟩ (body l) = _ := tail
      rw [body_cons, text, List.cons_append, List.cons_append, Splitter.passes?, Splitter.passes?]
      simpa [Splitter.cutsAt, Splitter.outside, Splitter.step, Splitter.passes?_append, first] using both

/-- A splitter passes over a literal in one piece. -/
theorem passes?_quoted (l : Literal) (depth : Nat) {before : Option Char} (regular : before ≠ some '@') :
    Splitter.passes? separator angle ⟨.outside, depth, before⟩ ('"' :: (l.body ++ ['"'])) =
      some ⟨.outside, depth, '"'⟩ := by
  obtain ⟨last, inside⟩ : ∃ last, Splitter.passes? separator angle ⟨.regular, depth, some '"'⟩ l.body = _ :=
    passes?_body l depth (some '"')
  have opens : Splitter.step angle ⟨.outside, depth, before⟩ '"' = ⟨.regular, depth, '"'⟩ := by
    simp [Splitter.step, Splitter.stepOutside, regular]
  rw [Splitter.passes?, opens, Splitter.passes?_append, inside]
  simp [Splitter.cutsAt, Splitter.outside, Splitter.step, Splitter.passes?]

end

/-! ## Literals that are understood -/

theorem reading_filled (s : Spelling) : ∃ c cs, s.reading = c :: cs := by
  cases s with
  | plain c _ => exact ⟨c, [], rfl⟩
  | escape mark _ _ => exact ⟨escapedChar mark, [], rfl⟩
  | point mark digits _ _ _ => exact ⟨escapedChar mark, digits, rfl⟩

theorem length_le_reading (l : Literal) : l.length ≤ l.reading.length := by
  induction l with
  | nil => exact Nat.le_refl 0
  | cons s l ih =>
    obtain ⟨c, cs, e⟩ := reading_filled s
    rw [reading_cons, e, List.length_cons, List.length_append, List.length_cons]
    omega

/-- **A literal is read as the string written just when all its spellings are understood.** -/
theorem reading_eq_value_iff (l : Literal) : l.reading = l.value ↔ l.Understood := by
  induction l with
  | nil => simp [reading, value, Understood]
  | cons s l ih =>
    obtain ⟨c, cs, e⟩ := reading_filled s
    have here : Understood (s :: l) ↔ s.Understood ∧ Understood l := List.forall_mem_cons
    rw [here, ← ih, reading_cons, value_cons, Spelling.Understood, e]
    constructor
    · intro same
      rw [List.cons_append] at same
      obtain ⟨first, rest⟩ := List.cons.inj same
      have size := congrArg List.length rest
      have := length_le_reading l
      rw [List.length_append, value, List.length_map] at size
      obtain rfl : cs = [] := List.eq_nil_of_length_eq_zero (by omega)
      exact ⟨by rw [first], rest⟩
    · rintro ⟨first, rest⟩
      rw [first, rest]
      rfl

/-- a string written with as few escapes as there may be -/
def write (t : Text) : Literal :=
  t.map fun c =>
    if free : bodyChar c = true then .plain c free
    else if c = '"' then .escape '"' '"' (by decide)
    else if c = '\\' then .escape '\\' '\\' (by decide)
    else .escape 'n' '\n' (by decide)

/-- Every string can be written so that it is understood. -/
theorem understood_write (t : Text) : (write t).Understood := by
  rw [Understood, write, List.forall_mem_map]
  intro c _
  split
  · rfl
  · split
    · decide
    · split <;> decide

theorem value_write (t : Text) : (write t).value = t := by
  rw [value, write, List.map_map]
  refine (List.map_congr_left fun c _ => ?_).trans (List.map_id t)
  simp only [Function.comp, id]
  split
  · rfl
  · next quoted =>
    simp only [bodyChar, Bool.and_eq_true, bne_iff_ne, not_and_or, not_not] at quoted
    split
    · next quote => exact quote.symm
    · split
      · next slash => exact slash.symm
      · next quote slash =>
        rcases quoted with (quote' | slash') | feed
        · exact absurd quote' quote
        · exact absurd slash' slash
        · exact feed.symm

end Literal

end Rendered

end EndpointSurvey
