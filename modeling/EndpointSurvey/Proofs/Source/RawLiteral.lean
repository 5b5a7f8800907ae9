/-
Raw string literals: three quotes or more open one, with any number of dollar signs in front, and as many quotes close
it. The lexer knows raw literals of three quotes without dollar signs. It takes a longer row of quotes for raw literals of
three and for empty strings, one after the other, and two quotes behind a dollar sign for an empty string.

Main statement: `maskedWhole_iff` (with which delimiters the body of every raw literal is blanked and the code behind it
left as it is, and with which that holds at least of bodies without three quotes in a row).
-/
import EndpointSurvey.Proofs.Source.Masked
import EndpointSurvey.Proofs.Source.Quotation

namespace EndpointSurvey

open Lexeme

/-! ## Literals in code -/

/-- code without quotes, comments and directives; `lineBlank` says that only blanks precede it on its line -/
def bareCode (lineBlank : Bool) : Text → Bool
  | [] => true
  | c :: cs =>
    c != '"' && c != '\'' && !(c == '/' && (cs.head? == some '/' || cs.head? == some '*')) && !(c == '#' && lineBlank) &&
      bareCode (lineBlankAfter lineBlank c) cs

/-- the code around a literal, in front of which no mark stands that would be its own -/
structure Surrounding (before after : Text) : Prop where
  apart : before.getLast? ≠ some '@' ∧ before.getLast? ≠ some '$'
  front : bareCode true before = true
  back : bareCode false after = true

/-- a row of quotes -/
def quoteRow (count : Nat) : Text := List.replicate count '"'

/-- what may stand between as many quotes -/
structure RawBody (quotes : Nat) (body : Text) : Prop where
  free : ¬ quoteRow quotes <:+: body
  first : body.head? ≠ some '"'
  last : body.getLast? ≠ some '"'

/-- what opens a raw literal -/
def rawOpening (dollars quotes : Nat) : Text := List.replicate dollars '$' ++ quoteRow quotes

def rawLiteral (dollars quotes : Nat) (body : Text) : Text := rawOpening dollars quotes ++ body ++ quoteRow quotes

/-- Blanking blanks the body of a raw literal and leaves the code around the literal as it is, whatever becomes of the
delimiters. -/
def MaskedWhole (dollars quotes : Nat) (before body after : Text) : Prop :=
  ∃ opening closing : Text, opening.length = dollars + quotes ∧ closing.length = quotes ∧
    mask true (before ++ rawLiteral dollars quotes body ++ after) =
      before ++ opening ++ blankOut body ++ closing ++ after

/-! ## Code around literals -/

theorem special?_slash {t : Text} (other : t.head? ≠ some '/' ∧ t.head? ≠ some '*') (lineBlank : Bool) :
    special? lineBlank ('/' :: t) = none := by
  unfold special?
  split <;> first | rfl | simp_all

theorem special?_hash (t : Text) : special? false ('#' :: t) = none := by
  unfold special?
  split <;> first | rfl | simp_all

theorem special?_mark {c : Char} (mark : c = '@' ∨ c = '$') {t : Text} (one : t.head? ≠ some '"')
    (two : t.tail.head? ≠ some '"' ∨ t.head? ≠ some '@' ∧ t.head? ≠ some '$') (lineBlank : Bool) :
    special? lineBlank (c :: t) = none := by
  unfold special?
  split <;> first | rfl | simp_all

theorem bareCode_free {lineBlank : Bool} {t : Text} (bare : bareCode lineBlank t = true) : '"' ∉ t := by
  induction t generalizing lineBlank with
  | nil => simp
  | cons c cs ih =>
    simp only [bareCode, Bool.and_eq_true, bne_iff_ne] at bare
    simp only [List.mem_cons, not_or]
    exact ⟨bare.1.1.1.1.symm, ih bare.2⟩

/-- A mark in bare code begins nothing: it is not the last character in front of a literal, nor is there a quote in
the code. -/
theorem special?_mark_bare {c : Char} (mark : c = '@' ∨ c = '$') {cs x : Text} (free : '"' ∉ cs)
    (apart : x = [] ∨ (x.head? = some '"' ∨ x.head? = some '$') ∧
      (c :: cs).getLast? ≠ some '@' ∧ (c :: cs).getLast? ≠ some '$') (lineBlank : Bool) :
    special? lineBlank (c :: (cs ++ x)) = none := by
  rcases cs with _ | ⟨d, _ | ⟨e, es⟩⟩
  · have stop : x = [] := apart.resolve_right fun h => by
      rcases mark with rfl | rfl
      · exact h.2.1 rfl
      · exact h.2.2 rfl
    exact special?_mark mark (by simp [stop]) (.inl (by simp [stop])) lineBlank
  · simp only [List.mem_cons, not_or] at free
    refine special?_mark mark (by simpa using Ne.symm free.1) ?_ lineBlank
    rcases apart with rfl | ⟨-, last⟩
    · exact .inl (by simp)
    · exact .inr (by simpa using last)
  · simp only [List.mem_cons, not_or] at free
    exact special?_mark mark (by simpa using Ne.symm free.1) (.inl (by simpa using Ne.symm free.2.1)) lineBlank

/-- Bare code is passed over character by character, up to its end or to the marks of a literal. -/
theorem lexFrom_bare {lineBlank : Bool} {t x : Text} (bare : bareCode lineBlank t = true)
    (apart : x = [] ∨ (x.head? = some '"' ∨ x.head? = some '$') ∧ t.getLast? ≠ some '@' ∧ t.getLast? ≠ some '$') :
    ∃ lineBlank', lexFrom lineBlank (t ++ x) = t.map code ++ lexFrom lineBlank' x := by
  induction t generalizing lineBlank with
  | nil => exact ⟨lineBlank, rfl⟩
  | cons c cs ih =>
    have free := bareCode_free bare
    simp only [bareCode, Bool.and_eq_true, bne_iff_ne, Bool.not_eq_true', Bool.and_eq_false_iff, Bool.or_eq_false_iff,
      beq_eq_false_iff_ne] at bare
    obtain ⟨⟨⟨⟨double, single⟩, slash⟩, hash⟩, rest⟩ := bare
    have none : special? lineBlank (c :: (cs ++ x)) = none := by
      by_cases mark : c = '@' ∨ c = '$'
      · exact special?_mark_bare mark (not_or.1 (List.mem_cons.not.1 free)).2 apart lineBlank
      · by_cases start : c = '/'
        · subst start
          refine special?_slash ?_ lineBlank
          cases cs with
          | nil =>
            rcases apart with rfl | ⟨start | start, -⟩
            · simp
            · simp [start]
            · simp [start]
          | cons d ds => simpa using slash
        · by_cases directive : c = '#'
          · subst directive
            rw [hash.resolve_left fun h => h rfl]
            exact special?_hash _
          · have plain : codeMark c = true := by
              simp [codeMark, quoteMark, start, directive, double, single, not_or.1 mark]
            exact special?_codeMark plain lineBlank _
    have apart' : x = [] ∨
        (x.head? = some '"' ∨ x.head? = some '$') ∧ cs.getLast? ≠ some '@' ∧ cs.getLast? ≠ some '$' := by
      refine apart.imp_right fun front => ⟨front.1, ?_⟩
      cases cs with
      | nil => simp
      | cons d ds => simpa only [List.getLast?_cons_cons] using front.2
    obtain ⟨last, whole⟩ := ih rest apart'
    exact ⟨last, by rw [List.cons_append, lexFrom_none none, whole]; rfl⟩

/-- The code around a literal stays as it is, if the lexer keeps to the literal's marks. -/
theorem mask_surrounded {before after t : Text} (h : Surrounding before after)
    (start : t.head? = some '"' ∨ t.head? = some '$') : ∃ lineBlank, mask true (before ++ t ++ after) =
      before ++ (lexFrom lineBlank (t ++ after)).flatMap (masked true) := by
  have start' : (t ++ after).head? = some '"' ∨ (t ++ after).head? = some '$' := by
    rw [List.head?_append]
    exact start.imp (fun e => by rw [e]; rfl) fun e => by rw [e]; rfl
  obtain ⟨lineBlank, whole⟩ := lexFrom_bare h.front (.inr ⟨start', h.apart⟩)
  refine ⟨lineBlank, ?_⟩
  have same : (before.map code).flatMap (masked true) = before := by simp [List.flatMap_map, masked]
  rw [mask, lex, List.append_assoc, whole, List.flatMap_append, same]

/-! ## Rows of quotes -/

theorem quoteRow_add (m n : Nat) : quoteRow (m + n) = quoteRow m ++ quoteRow n := List.replicate_append_replicate.symm

/-- wherever the text stands, its code is this, and what follows is lexed as behind a literal -/
def Closes (t code : Text) : Prop :=
  ∀ lineBlank rest, (lexFrom lineBlank (t ++ rest)).flatMap (masked true) =
    code ++ (lexFrom false rest).flatMap (masked true)

theorem Closes.masks {t code : Text} (h : Closes t code) : Masks true t code :=
  fun lineBlank rest => ⟨false, h lineBlank rest⟩

theorem Closes.append {t u code code' : Text} (h : Masks true t code) (h' : Closes u code') :
    Closes (t ++ u) (code ++ code') := by
  intro lineBlank rest
  obtain ⟨mid, first⟩ := h lineBlank (u ++ rest)
  rw [List.append_assoc, first, h' mid rest, List.append_assoc]

/-- Six quotes are an empty raw literal, whatever follows. -/
theorem closes_six : Closes (quoteRow 6) (quoteRow 6) := by
  intro lineBlank rest
  have found : special? lineBlank (quoteRow 6 ++ rest) = some (literal (quoteRow 3) [] (quoteRow 3), rest) := by
    show some (rawAfter (['"', '"', '"'] ++ rest)) = _
    rw [rawAfter, splitFirst?_self]
    rfl
  rw [lexFrom_some found, List.flatMap_cons]
  rfl

theorem masks_sixes (count : Nat) : Masks true (quoteRow (6 * count)) (quoteRow (6 * count)) := by
  induction count with
  | zero => exact masks_nil
  | succ count ih =>
    rw [Nat.mul_succ, quoteRow_add]
    exact ih.append closes_six.masks

theorem Closes.sixes {t code : Text} (h : Closes t code) (count : Nat) :
    Closes (t ++ quoteRow (6 * count)) (code ++ quoteRow (6 * count)) := by
  cases count with
  | zero => rwa [show quoteRow (6 * 0) = [] from rfl, List.append_nil, List.append_nil]
  | succ count =>
    rw [Nat.mul_succ, quoteRow_add, ← List.append_assoc, ← List.append_assoc]
    exact Closes.append (h.masks.append (masks_sixes count)) closes_six

/-- Two quotes behind dollar signs are an empty string, whatever follows. -/
theorem masks_dollars : ∀ more : Nat, Masks true (rawOpening (more + 1) 2) (rawOpening (more + 1) 2)
  | 0 => fun lineBlank rest => by
    have found : special? lineBlank (rawOpening 1 2 ++ rest) = some (literal ['$', '"'] [] ['"'], rest) :=
      congrArg some (stringAfter_of_body (regularBody_quoted .nil rest))
    exact ⟨false, by rw [lexFrom_some found, List.flatMap_cons]; rfl⟩
  | 1 => fun lineBlank rest => by
    have found : special? lineBlank (rawOpening 2 2 ++ rest) = some (literal ['$', '$', '"'] [] ['"'], rest) :=
      congrArg some (stringAfter_of_body (regularBody_quoted .nil rest))
    exact ⟨false, by rw [lexFrom_some found, List.flatMap_cons]; rfl⟩
  | more + 2 => fun lineBlank rest => by
    obtain ⟨last, tail⟩ := masks_dollars (more + 1) (lineBlankAfter lineBlank '$') rest
    have first : special? lineBlank ('$' :: (rawOpening (more + 2) 2 ++ rest)) = none :=
      special?_mark (.inr rfl) (by simp [rawOpening, List.replicate_succ])
        (.inl (by simp [rawOpening, List.replicate_succ])) lineBlank
    have grow : rawOpening (more + 3) 2 = '$' :: rawOpening (more + 2) 2 := rfl
    refine ⟨last, ?_⟩
    rw [grow, List.cons_append, lexFrom_none first, List.flatMap_cons, tail]
    rfl

/-- how many quotes of a delimiter the lexer has left when it has passed all empty literals -/
def quotesLeft (dollars quotes : Nat) : Nat := if dollars = 0 then quotes % 6 else (quotes - 2) % 6

/-- The lexer passes all of an opening but for the quotes left. -/
theorem exists_front (dollars : Nat) {quotes : Nat} (two : 2 ≤ quotes) :
    ∃ front, Masks true front front ∧ rawOpening dollars quotes = front ++ quoteRow (quotesLeft dollars quotes) := by
  cases dollars with
  | zero =>
    refine ⟨_, masks_sixes (quotes / 6), ?_⟩
    rw [quotesLeft, if_pos rfl, ← quoteRow_add, Nat.div_add_mod]
    rfl
  | succ more =>
    refine ⟨_, (masks_dollars more).append (masks_sixes ((quotes - 2) / 6)), ?_⟩
    rw [quotesLeft, if_neg (Nat.succ_ne_zero more), List.append_assoc, ← quoteRow_add, Nat.div_add_mod, rawOpening,
      rawOpening, List.append_assoc, ← quoteRow_add, Nat.add_sub_cancel' two]

/-! ## Literals of three quotes -/

/-- Three quotes, and those that follow them, open a raw literal that the next three close. -/
theorem closes_raw {extra : Nat} {body : Text} (absent : ¬ quoteRow 3 <:+: quoteRow extra ++ body)
    (last : (quoteRow extra ++ body).getLast? ≠ some '"') : Closes (quoteRow (3 + extra) ++ body ++ quoteRow 3)
      (quoteRow 3 ++ blankOut (quoteRow extra ++ body) ++ quoteRow 3) := by
  intro lineBlank rest
  -- three quotes begin nowhere before the closing ones: not inside, and not at the end, where no quote stands
  have first : ∀ s, s <:+ quoteRow extra ++ body → s ≠ [] → ¬ quoteRow 3 <+: s ++ (quoteRow 3 ++ rest) := by
    rintro s ⟨front, whole⟩ filled ⟨more, e⟩
    rw [← whole] at absent last
    simp only [quoteRow, List.replicate_succ, List.replicate_zero, List.cons_append, List.nil_append] at e absent
    match s with
    | [] => exact filled rfl
    | [c] =>
      simp only [List.cons_append, List.cons.injEq] at e
      exact last (by simp [← e.1])
    | [c, d] =>
      simp only [List.cons_append, List.cons.injEq] at e
      exact last (by simp [← e.2.1])
    | c :: d :: x :: xs =>
      simp only [List.cons_append, List.cons.injEq] at e
      obtain ⟨rfl, rfl, rfl, -⟩ := e
      exact absent ⟨front, xs, by simp⟩
  have found : special? lineBlank (quoteRow (3 + extra) ++ body ++ quoteRow 3 ++ rest) =
      some (literal (quoteRow 3) (quoteRow extra ++ body) (quoteRow 3), rest) := by
    have closed := splitFirst?_of_absent first
    rw [quoteRow_add, List.append_assoc (quoteRow 3), List.append_assoc (quoteRow 3), List.append_assoc (quoteRow 3),
      List.append_assoc _ _ rest]
    show some (rawAfter (quoteRow extra ++ body ++ (quoteRow 3 ++ rest))) = _
    rw [rawAfter, show (['"', '"', '"'] : Text) = quoteRow 3 from rfl, closed]
  rw [lexFrom_some found, List.flatMap_cons]
  rfl

/-! ## Delimiters that the lexer makes out -/

theorem head?_rawLiteral (dollars : Nat) {quotes : Nat} (filled : 0 < quotes) (body : Text) :
    (rawLiteral dollars quotes body).head? = some '"' ∨ (rawLiteral dollars quotes body).head? = some '$' := by
  obtain ⟨quotes, rfl⟩ := Nat.exists_eq_succ_of_ne_zero (Nat.ne_of_gt filled)
  cases dollars with
  | zero => exact .inl rfl
  | succ dollars => exact .inr rfl

theorem tail_masked {after : Text} (back : bareCode false after = true) {extra : Nat} (fits : extra = 0 ∨ extra = 2) :
    (lexFrom false (quoteRow extra ++ after)).flatMap (masked true) = quoteRow extra ++ after := by
  have code : (lexFrom false after).flatMap (masked true) = after := by
    obtain ⟨lineBlank, whole⟩ := lexFrom_bare back (.inl rfl)
    rw [List.append_nil, lexFrom_nil, List.append_nil] at whole
    rw [whole]
    simp [List.flatMap_map, masked]
  have apart : after.head? ≠ some '"' := fun e => bareCode_free back (List.mem_of_head? e)
  rcases fits with rfl | rfl
  · exact code
  · have found : special? false (quoteRow 2 ++ after) = some (literal ['"'] [] ['"'], after) :=
      special?_regular ['"'] (by decide) .nil apart
    rw [lexFrom_some found, List.flatMap_cons, code]
    rfl

/-- Three quotes open the literal, maybe with some that go into its body, and three close it. -/
theorem closes_rawOpening {dollars quotes extra : Nat} {body : Text} (long : 3 ≤ quotes)
    (left : quotesLeft dollars quotes = 3 + extra) (absent : ¬ quoteRow 3 <:+: quoteRow extra ++ body)
    (last : (quoteRow extra ++ body).getLast? ≠ some '"') : ∃ opening : Text, opening.length = dollars + quotes ∧
      Closes (rawOpening dollars quotes ++ body ++ quoteRow 3) (opening ++ blankOut body ++ quoteRow 3) := by
  obtain ⟨front, masks, opened⟩ := exists_front dollars (Nat.le_of_succ_le long)
  have blanks : blankOut (quoteRow extra ++ body) = blankOut (quoteRow extra) ++ blankOut body := List.map_append
  refine ⟨front ++ (quoteRow 3 ++ blankOut (quoteRow extra)), ?_, ?_⟩
  · have := congrArg List.length opened
    simp [rawOpening, quoteRow, left, blankOut] at this ⊢
    omega
  · have closes := Closes.append masks (closes_raw absent last)
    rw [blanks] at closes
    rw [opened, left]
    simpa only [List.append_assoc] using closes

/-- The lexer passes the closing quotes behind the third in sixes. -/
theorem rawLiteral_eq (dollars : Nat) {quotes : Nat} (long : 3 ≤ quotes) (body : Text) :
    rawLiteral dollars quotes body = rawOpening dollars quotes ++ body ++ quoteRow 3 ++
      quoteRow (6 * ((quotes - 3) / 6)) ++ quoteRow ((quotes - 3) % 6) := by
  have closing : quoteRow quotes = quoteRow 3 ++ (quoteRow (6 * ((quotes - 3) / 6)) ++ quoteRow ((quotes - 3) % 6)) := by
    rw [← quoteRow_add, Nat.div_add_mod, ← quoteRow_add, Nat.add_sub_cancel' long]
  rw [rawLiteral, closing]
  simp only [List.append_assoc]

theorem maskedWhole_of {dollars quotes extra : Nat} {before body after : Text} (h : Surrounding before after)
    (long : 3 ≤ quotes) (left : quotesLeft dollars quotes = 3 + extra)
    (behind : (quotes - 3) % 6 = 0 ∨ (quotes - 3) % 6 = 2) (absent : ¬ quoteRow 3 <:+: quoteRow extra ++ body)
    (last : (quoteRow extra ++ body).getLast? ≠ some '"') : MaskedWhole dollars quotes before body after := by
  obtain ⟨lineBlank, whole⟩ := mask_surrounded h (head?_rawLiteral dollars (Nat.zero_lt_of_lt long) body)
  obtain ⟨opening, size, closes⟩ := closes_rawOpening long left absent last
  refine ⟨opening, quoteRow 3 ++ (quoteRow (6 * ((quotes - 3) / 6)) ++ quoteRow ((quotes - 3) % 6)), size, ?_, ?_⟩
  · simp [quoteRow]
    omega
  · rw [whole, rawLiteral_eq dollars long, List.append_assoc _ _ after, closes.sixes, tail_masked h.back behind]
    simp only [List.append_assoc]

/-! ## Delimiters that the lexer misses -/

theorem surrounding_nil {after : Text} (back : bareCode false after = true) : Surrounding [] after :=
  ⟨by simp, rfl, back⟩

/-- What stands in place of the body is blank, or the body is not masked. -/
theorem not_maskedWhole_of {dollars quotes : Nat} {body opening shown : Text}
    (masks : Masks true (rawOpening dollars quotes ++ body) (opening ++ shown))
    (size : opening.length = dollars + quotes) (visible : shown ≠ blankOut body) :
    ¬ MaskedWhole dollars quotes [] body [] := by
  rintro ⟨opening', closing, size', -, whole⟩
  obtain ⟨last, e⟩ := masks true (quoteRow quotes)
  rw [rawLiteral, List.nil_append, List.append_nil, mask, lex, e] at whole
  have length : shown.length = (blankOut body).length := by
    have := masks.length_eq
    simp [rawOpening, quoteRow, blankOut] at this ⊢
    omega
  simp only [List.nil_append, List.append_nil, List.append_assoc] at whole
  have rest := (List.append_inj whole (size.trans size'.symm)).2
  exact visible (List.append_inj rest length).1

/-- Fewer than three quotes left hide no more than a line. -/
theorem not_maskedWhole_of_left {dollars quotes : Nat} (long : 3 ≤ quotes) (left : quotesLeft dollars quotes ≤ 2) :
    ¬ MaskedWhole dollars quotes [] ['\n', 'x'] [] := by
  obtain ⟨front, masks, opened⟩ := exists_front dollars (Nat.le_of_succ_le long)
  have line : Masks true ['\n', 'x'] ['\n', 'x'] := masks_plain (Text.forall_of_all (by decide)) true
  have shown : Masks true (quoteRow (quotesLeft dollars quotes) ++ ['\n', 'x'])
      (quoteRow (quotesLeft dollars quotes) ++ ['\n', 'x']) := by
    generalize quotesLeft dollars quotes = count at left
    match count, left with
    | 0, _ => exact line
    | 1, _ =>
      -- a string that its line ends
      exact line.lexeme (t := ['"']) (l := .literal ['"'] [] []) fun lineBlank rest =>
        special?_quote fun two => absurd (List.cons_prefix_cons.1 two).1 (by decide)
    | 2, _ =>
      exact line.lexeme (t := quoteRow 2) (l := .literal ['"'] [] ['"']) fun lineBlank rest =>
        special?_regular ['"'] (by decide) .nil (by simp)
  have whole := masks.append shown
  rw [← List.append_assoc, ← opened] at whole
  exact not_maskedWhole_of whole (by simp [rawOpening, quoteRow]) (by decide)

theorem short_absent {extra : Nat} (few : extra ≤ 2) :
    ¬ quoteRow 3 <:+: quoteRow extra ++ ['x'] ∧ (quoteRow extra ++ ['x']).getLast? ≠ some '"' := by
  match extra, few with
  | 0, _ => decide
  | 1, _ => decide
  | 2, _ => decide

/-- Three quotes inside a body close the literal. -/
theorem not_maskedWhole_of_inner {dollars quotes extra : Nat} (long : 3 ≤ quotes)
    (left : quotesLeft dollars quotes = 3 + extra) (few : extra ≤ 2) :
    ¬ MaskedWhole dollars quotes [] ['x', '"', '"', '"', 'x'] [] := by
  obtain ⟨absent, last⟩ := short_absent few
  obtain ⟨opening, size, closes⟩ := closes_rawOpening long left absent last
  have behind : Masks true ['x'] ['x'] := masks_plain (Text.forall_of_all (by decide)) true
  have whole := closes.masks.append behind
  simp only [List.append_assoc] at whole
  exact not_maskedWhole_of whole size (by decide)

/-- One quote, or three or four, behind those that the lexer passes hide the code that follows. -/
theorem not_maskedWhole_of_behind {dollars quotes extra : Nat} (long : 3 ≤ quotes)
    (left : quotesLeft dollars quotes = 3 + extra) (few : extra ≤ 2)
    (behind : (quotes - 3) % 6 = 1 ∨ (quotes - 3) % 6 = 3 ∨ (quotes - 3) % 6 = 4) :
    ¬ MaskedWhole dollars quotes [] ['x'] ['y', 'y', 'y', 'y'] := by
  obtain ⟨absent, last⟩ := short_absent few
  obtain ⟨opening, size, closes⟩ := closes_rawOpening long left absent last
  have hidden : ∃ front back : Text, back.length = 3 ∧
      (lexFrom false (quoteRow ((quotes - 3) % 6) ++ ['y', 'y', 'y', 'y'])).flatMap (masked true) =
        front ++ ' ' :: back := by
    rcases behind with e | e | e
    · have found : special? false (quoteRow 1 ++ ['y', 'y', 'y', 'y']) =
          some (.literal ['"'] ['y', 'y', 'y', 'y'] [], []) := by decide
      rw [e, lexFrom_some found, lexFrom_nil]
      exact ⟨['"'], [' ', ' ', ' '], rfl, rfl⟩
    · have found : special? false (quoteRow 3 ++ ['y', 'y', 'y', 'y']) =
          some (.literal (quoteRow 3) ['y'] ['y', 'y', 'y'], []) := by decide
      rw [e, lexFrom_some found, lexFrom_nil]
      exact ⟨quoteRow 3, ['y', 'y', 'y'], rfl, rfl⟩
    · have found : special? false (quoteRow 4 ++ ['y', 'y', 'y', 'y']) =
          some (.literal (quoteRow 3) ['"', 'y'] ['y', 'y', 'y'], []) := by decide
      rw [e, lexFrom_some found, lexFrom_nil]
      exact ⟨quoteRow 3 ++ [' '], ['y', 'y', 'y'], rfl, rfl⟩
  rintro ⟨opening', closing, -, -, whole⟩
  obtain ⟨front, back, three, hidden⟩ := hidden
  rw [List.nil_append, rawLiteral_eq dollars long, List.append_assoc _ _ ['y', 'y', 'y', 'y'], mask, lex, closes.sixes,
    hidden, ← List.append_assoc] at whole
  have ends := (List.append_inj' whole (by simp [three])).2
  cases ends

theorem RawBody.wider {body : Text} {quotes more : Nat} (h : RawBody quotes body) (le : quotes ≤ more) :
    RawBody more body := by
  refine ⟨fun found => h.free ?_, h.first, h.last⟩
  rw [← Nat.add_sub_cancel' le, quoteRow_add] at found
  exact (List.prefix_append _ _).isInfix.trans found

theorem absent_quoteRow {body : Text} (h : RawBody 3 body) {extra : Nat} (few : extra ≤ 2) :
    ¬ quoteRow 3 <:+: quoteRow extra ++ body := by
  have grow : ∀ {extra : Nat}, extra ≤ 1 → ¬ quoteRow 3 <:+: quoteRow extra ++ body →
      ¬ quoteRow 3 <:+: quoteRow (extra + 1) ++ body := by
    intro extra short absent found
    rcases List.infix_cons_iff.1 found with front | inside
    · have two : quoteRow 2 <+: quoteRow extra ++ body := (List.cons_prefix_cons.1 front).2
      obtain ⟨more, e⟩ := two
      match extra, short with
      | 0, _ => exact h.first (by rw [show body = quoteRow 2 ++ more from e.symm]; rfl)
      | 1, _ => exact h.first (by rw [show body = '"' :: more from (List.cons.inj e).2.symm]; rfl)
    · exact absent inside
  match extra, few with
  | 0, _ => exact h.free
  | 1, _ => exact grow (Nat.zero_le 1) h.free
  | 2, _ => exact grow (Nat.le_refl 1) (grow (Nat.zero_le 1) h.free)

theorem getLast?_quoteRow {body : Text} (filled : body ≠ []) (last : body.getLast? ≠ some '"') (extra : Nat) :
    (quoteRow extra ++ body).getLast? ≠ some '"' := by
  obtain ⟨c, e⟩ := Option.ne_none_iff_exists'.1 (mt List.getLast?_eq_none_iff.1 filled)
  rw [List.getLast?_append, e, Option.some_or, ← e]
  exact last

/-- **Raw literals that are masked whole.** Of the literals with a delimiter of three quotes or more and any number of
dollar signs, all are masked whole just when the delimiter is three quotes without a dollar sign. Those whose body has
three quotes in a row nowhere are so just with five quotes more than a multiple of six, and without a dollar sign with
three more as well. -/
theorem maskedWhole_iff {quotes : Nat} (long : 3 ≤ quotes) (dollars : Nat) :
    ((∀ before body after, Surrounding before after → RawBody quotes body →
        MaskedWhole dollars quotes before body after) ↔ quotes = 3 ∧ dollars = 0) ∧
      ((∀ before body after, Surrounding before after → body ≠ [] → RawBody 3 body →
        MaskedWhole dollars quotes before body after) ↔ quotes % 6 = 5 ∨ quotes % 6 = 3 ∧ dollars = 0) := by
  have plain : (∀ before body after, Surrounding before after → body ≠ [] → RawBody 3 body →
      MaskedWhole dollars quotes before body after) ↔ quotes % 6 = 5 ∨ quotes % 6 = 3 ∧ dollars = 0 := by
    constructor
    · intro all
      have raw : RawBody 3 ['\n', 'x'] ∧ RawBody 3 ['x'] :=
        ⟨⟨by decide, by decide, by decide⟩, by decide, by decide, by decide⟩
      have more : ¬ quotesLeft dollars quotes ≤ 2 := fun few =>
        not_maskedWhole_of_left long few (all _ _ _ (surrounding_nil rfl) (by simp) raw.1)
      by_contra missed
      obtain ⟨extra, left, few, behind⟩ : ∃ extra, quotesLeft dollars quotes = 3 + extra ∧ extra ≤ 2 ∧
          ((quotes - 3) % 6 = 1 ∨ (quotes - 3) % 6 = 3 ∨ (quotes - 3) % 6 = 4) := by
        refine ⟨quotesLeft dollars quotes - 3, by omega, ?_⟩
        rw [quotesLeft] at more ⊢
        split at more <;> split <;> omega
      exact not_maskedWhole_of_behind long left few behind (all _ _ _ (surrounding_nil rfl) (by simp) raw.2)
    · intro fits
      obtain ⟨extra, left, few, behind⟩ : ∃ extra, quotesLeft dollars quotes = 3 + extra ∧ extra ≤ 2 ∧
          ((quotes - 3) % 6 = 0 ∨ (quotes - 3) % 6 = 2) := by
        refine ⟨quotesLeft dollars quotes - 3, ?_⟩
        rw [quotesLeft]
        split <;> omega
      intro before body after h filled raw
      exact maskedWhole_of h long left behind (absent_quoteRow raw few) (getLast?_quoteRow filled raw.last extra)
  refine ⟨⟨fun all => ?_, ?_⟩, plain⟩
  · have fits := plain.1 fun before body after h _ raw => all before body after h (raw.wider long)
    by_contra missed
    have inner : RawBody quotes ['x', '"', '"', '"', 'x'] := by
      refine ⟨fun found => ?_, by decide, by decide⟩
      have := found.sublist.count_le '"'
      simp [quoteRow] at this
      omega
    obtain ⟨extra, left, few⟩ : ∃ extra, quotesLeft dollars quotes = 3 + extra ∧ extra ≤ 2 := by
      refine ⟨quotesLeft dollars quotes - 3, ?_⟩
      rw [quotesLeft]
      split <;> omega
    exact not_maskedWhole_of_inner long left few (all _ _ _ (surrounding_nil rfl) inner)
  · rintro ⟨rfl, rfl⟩ before body after h raw
    exact maskedWhole_of h long (show quotesLeft 0 3 = 3 + 0 from rfl) (.inl rfl) raw.free raw.last

/-- With a dollar sign in front of three quotes, some literal is not masked whole. -/
theorem maskedWhole_iff_dollar : 3 ≤ 3 ∧ ¬ ∀ before body after, Surrounding before after → RawBody 3 body →
    MaskedWhole 1 3 before body after :=
  ⟨by decide, fun all => absurd ((maskedWhole_iff (by decide) 1).1.1 all).2 (by decide)⟩

end EndpointSurvey
