/-
Stretches of text that are blanked by themselves: wherever such a stretch stands, its code is the same, and what follows
it is blanked as if nothing stood before. Stretches without comment, directive and quotation marks are such, and so is a
regular string with what comes right after it.

Main statements: `Masks.append`, `masks_plain`, `masks_literal`, and `Masks.mask_eq` for a whole text; `lexFrom_append`
(a text that ends in code keeps its lexemes).
-/
import EndpointSurvey.Proofs.Source.Relexing
import EndpointSurvey.Proofs.Text.Spacing

namespace EndpointSurvey

open Lexeme

/-- wherever the text stands, its code is this, and what follows is blanked on its own -/
def Masks (literals : Bool) (t code : Text) : Prop :=
  ∀ lineBlank rest, ∃ lineBlank', (lexFrom lineBlank (t ++ rest)).flatMap (masked literals) =
    code ++ (lexFrom lineBlank' rest).flatMap (masked literals)

section
variable {literals : Bool} {t u code code' : Text}

theorem masks_nil : Masks literals [] [] := fun lineBlank _ => ⟨lineBlank, rfl⟩

theorem Masks.append (h : Masks literals t code) (h' : Masks literals u code') :
    Masks literals (t ++ u) (code ++ code') := by
  intro lineBlank rest
  obtain ⟨mid, first⟩ := h lineBlank (u ++ rest)
  obtain ⟨last, second⟩ := h' mid rest
  exact ⟨last, by rw [List.append_assoc, first, second, List.append_assoc]⟩

theorem Masks.mask_eq (h : Masks literals t code) : mask literals t = code := by
  obtain ⟨_, whole⟩ := h true []
  rw [List.append_nil, lexFrom_nil] at whole
  rw [mask, lex, whole, List.flatMap_nil, List.append_nil]

theorem Masks.length_eq (h : Masks literals t code) : code.length = t.length := by
  rw [← h.mask_eq, mask_length]

theorem masks_flatMap {α : Type} {text code : α → Text} {as : List α}
    (h : ∀ a ∈ as, Masks literals (text a) (code a)) : Masks literals (as.flatMap text) (as.flatMap code) := by
  induction as with
  | nil => exact masks_nil
  | cons a as ih =>
    rw [List.flatMap_cons, List.flatMap_cons]
    exact (h a List.mem_cons_self).append (ih fun b hb => h b (List.mem_cons_of_mem a hb))

/-- A lexeme is blanked with what comes after it, if it is recognised in front of that. -/
theorem Masks.lexeme {l : Lexeme} (h : Masks literals u code)
    (found : ∀ lineBlank rest, special? lineBlank (t ++ (u ++ rest)) = some (l, u ++ rest)) :
    Masks literals (t ++ u) (l.masked literals ++ code) := by
  intro lineBlank rest
  obtain ⟨last, tail⟩ := h false rest
  exact ⟨last, by rw [List.append_assoc, lexFrom_some (found lineBlank rest), List.flatMap_cons, tail, List.append_assoc]⟩

end

/-! ## Stretches of code -/

/-- a character that starts no comment, directive or literal -/
def codeMark (c : Char) : Bool := c != '/' && c != '#' && !quoteMark c

theorem special?_codeMark {c : Char} (h : codeMark c = true) (lineBlank : Bool) (t : Text) :
    special? lineBlank (c :: t) = none := by
  have marked : ∀ opening ∈ openings, ∀ d ∈ opening.head?, codeMark d = false := by simp [openings, codeMark, quoteMark]
  refine (special?_eq_none_iff (by rintro rfl; cases h) (by rintro rfl; cases h)).2 ?_
  rintro (_ | ⟨d, p⟩) mem start
  · exact absurd mem (by decide)
  · obtain ⟨rfl, -⟩ := List.cons_prefix_cons.1 start
    exact absurd (marked _ mem d rfl) (by simp [h])

theorem codeMark_of_blank {c : Char} (h : blank c = true) : codeMark c = true := by
  have other {d : Char} : blank d = false → c ≠ d := ne_of_test h
  simp [codeMark, quoteMark, other (d := '/') (by decide), other (d := '#') (by decide), other (d := '"') (by decide),
    other (d := '\'') (by decide), other (d := '@') (by decide), other (d := '$') (by decide)]

theorem masks_plain {t : Text} (h : ∀ c ∈ t, codeMark c = true) (literals : Bool) : Masks literals t t := by
  induction t with
  | nil => exact masks_nil
  | cons c cs ih =>
    intro lineBlank rest
    obtain ⟨last, tail⟩ := ih (fun d hd => h d (List.mem_cons_of_mem c hd)) (lineBlankAfter lineBlank c) rest
    refine ⟨last, ?_⟩
    rw [List.cons_append, lexFrom_none (special?_codeMark (h c List.mem_cons_self) lineBlank _), List.flatMap_cons, tail]
    rfl

/-- A line feed starts a line, whatever stands before it. -/
theorem masks_of_lines {t : Text} (feed : t.head? = some '\n') (h : ∀ rest, mask true (t ++ rest) =
    mask true t ++ mask true rest) : Masks true t (mask true t) := by
  intro lineBlank rest
  obtain ⟨cs, rfl⟩ := List.head?_eq_some_iff.1 feed
  have start : ∀ x, lexFrom lineBlank ('\n' :: x) = lexFrom true ('\n' :: x) := by
    intro x
    rw [lexFrom_none (special?_plain (Or.inr rfl) x), lexFrom_none (special?_plain (Or.inr rfl) x)]
    rfl
  exact ⟨true, by rw [List.cons_append, start]; exact h rest⟩

/-- A line feed starts what follows it anew. -/
theorem lexFrom_feed (lineBlank : Bool) (rest : Text) :
    (lexFrom lineBlank ('\n' :: rest)).flatMap (masked true) = '\n' :: mask true rest := by
  rw [lexFrom_none (special?_plain (Or.inr rfl) rest), List.flatMap_cons]
  rfl

/-- A line feed ends what such a stretch has begun: what follows is blanked as a text of its own. -/
theorem mask_lines {t code : Text} (h : Masks true t code) (rest : Text) :
    mask true (t ++ '\n' :: rest) = code ++ '\n' :: mask true rest := by
  obtain ⟨lineBlank, whole⟩ := h true ('\n' :: rest)
  rw [mask, lex, whole, lexFrom_feed]

/-- Parts that are blanked on their own in front of a character that is no quote, joined, are blanked one by one. -/
theorem masks_join {α : Type} {literals : Bool} {text code : α → Text} {as : List α}
    (each : ∀ a ∈ as, ∀ {d : Char} {t c : Text}, d ≠ '"' → Masks literals (d :: t) c →
      Masks literals (text a ++ d :: t) (code a ++ c)) {d : Char} {t c : Text} (other : d ≠ '"')
    (h : Masks literals (d :: t) c) :
    Masks literals (Text.join ", " (as.map text) ++ d :: t) (Text.join ", " (as.map code) ++ c) := by
  induction as with
  | nil => exact h
  | cons a as ih =>
    obtain ⟨here, later⟩ := List.forall_mem_cons.1 each
    cases as with
    | nil => simpa [Text.join] using here other h
    | cons b bs =>
      have comma : Masks literals [',', ' '] [',', ' '] := masks_plain (Text.forall_of_all (by decide)) literals
      have whole := here (by decide) (comma.append (ih later))
      rw [List.map_cons, List.map_cons, List.map_cons, List.map_cons, Text.join_cons, Text.join_cons, List.append_assoc,
        List.append_assoc, List.append_assoc, List.append_assoc]
      exact whole

/-! ## Regular strings -/

/-- the text is the body of a regular string that a quote closes -/
def ClosedBody (body : Text) : Prop := ∀ rest, regularBody (body ++ '"' :: rest) = (body, '"' :: rest)

/-- A regular string is blanked with what comes after it, which must not make its opening quotes three. -/
theorem masks_literal {body t code : Text} {d : Char} (closed : ClosedBody body) (other : d ≠ '"')
    (h : Masks true (d :: t) code) :
    Masks true ('"' :: (body ++ '"' :: d :: t)) ('"' :: (blankOut body ++ '"' :: code)) := by
  intro lineBlank rest
  have found := closed (d :: (t ++ rest))
  have single : ¬ ['"', '"'] <+: body ++ '"' :: d :: (t ++ rest) := by
    intro two
    cases body with
    | nil =>
      obtain ⟨more, e⟩ := two
      simp only [List.nil_append, List.cons_append, List.cons.injEq] at e
      exact other e.2.1.symm
    | cons c cs =>
      obtain ⟨more, e⟩ := two
      simp only [List.nil_append, List.cons_append, List.cons.injEq] at e
      exact regularBody_head found (by rw [← e.1]; rfl)
  obtain ⟨last, tail⟩ := h false rest
  refine ⟨last, ?_⟩
  have step : special? lineBlank ('"' :: (body ++ '"' :: d :: (t ++ rest))) =
      some (literal ['"'] body ['"'], d :: (t ++ rest)) :=
    (special?_quote single).trans (congrArg some (stringAfter_of_body found))
  rw [List.cons_append, List.append_assoc, List.cons_append, List.cons_append, lexFrom_some step, List.flatMap_cons]
  rw [List.cons_append] at tail
  rw [tail]
  simp [masked]

/-! ## Texts that end in code -/

/-- the first line of the text closes no character literal that stands open in front of it -/
def Unquoted (t : Text) : Prop := ∃ line rest, t = line ++ '\n' :: rest ∧ ∀ c ∈ line, c ≠ '\'' ∧ c ≠ '\\'

theorem characterBody?_unquoted {more : Text} (quiet : Unquoted more) (room : Nat) : characterBody? room more = none := by
  obtain ⟨line, rest, rfl, quiet⟩ := quiet
  induction line generalizing room with
  | nil => cases room <;> simp [characterBody?]
  | cons c cs ih =>
    obtain ⟨⟨apostrophe, backslash⟩, others⟩ := List.forall_mem_cons.1 quiet
    cases room with
    | zero => simp [characterBody?]
    | succ room =>
      rw [List.cons_append, characterBody?.eq_4 _ _ _ (fun _ _ e _ => backslash e), if_neg apostrophe, ih room others]
      simp

/-- An open character literal is not closed by such a text. -/
theorem characterBody?_none_append {room : Nat} {t more : Text} (h : characterBody? room t = none)
    (last : t.getLast? ≠ some '\\') (quiet : Unquoted more) : characterBody? room (t ++ more) = none := by
  fun_induction characterBody? room t with
  | case1 => simp [characterBody?]
  | case2 => exact characterBody?_unquoted quiet _
  | case3 room c cs ih =>
    have last' : cs.getLast? ≠ some '\\' := by
      cases cs with
      | nil => simp
      | cons d ds => simpa using last
    rw [List.cons_append, List.cons_append, characterBody?, ih (Option.map_eq_none_iff.1 h) last']
    rfl
  | case4 => cases h
  | case5 room cs hidden apostrophe =>
    rw [List.cons_append, characterBody?.eq_4 _ _ _ (fun _ _ e _ => absurd e (by decide)), if_neg apostrophe, if_pos rfl]
  | case6 room c cs hidden apostrophe feed ih =>
    cases cs with
    | nil =>
      have backslash : c ≠ '\\' := by
        rintro rfl
        exact last rfl
      rw [List.cons_append, characterBody?.eq_4 _ _ _ (fun _ _ e _ => backslash e), if_neg apostrophe, if_neg feed,
        ih (Option.map_eq_none_iff.1 h) (by simp)]
      rfl
    | cons d ds =>
      rw [List.cons_append, characterBody?.eq_4 _ _ _ (fun _ _ e _ => hidden d ds e rfl), if_neg apostrophe, if_neg feed,
        ih (Option.map_eq_none_iff.1 h) (by simpa using last)]
      rfl

/-- Nothing is recognised for what follows a mark of code, unless an apostrophe looks for its other one. -/
theorem special?_none_append {lineBlank : Bool} {c m : Char} {x more : Text} (h : special? lineBlank (c :: x) = none)
    (last : (c :: x).getLast? = some m) (mark : codeMark m = true) (backslash : m ≠ '\\')
    (apostrophe : c = '\'' → Unquoted more) : special? lineBlank (c :: (x ++ more)) = none := by
  cases x with
  | nil =>
    cases last
    exact special?_codeMark mark lineBlank _
  | cons d ds =>
    refine special?_none_of_marks h (fun open_ => ?_) fun e p mem start => ?_
    · subst open_
      have none : characterBody? characterRoom (d :: ds) = none := Option.map_eq_none_iff.1 h
      have ends : (d :: ds).getLast? ≠ some '\\' := by
        rw [List.getLast?_cons_cons] at last
        rw [last]
        exact fun e => backslash (Option.some.inj e)
      exact Option.map_eq_none_iff.2 (characterBody?_none_append none ends (apostrophe rfl))
    · -- between its ends an opening has marks of literals only, so it does not reach over a mark of code
      have between : ∀ opening ∈ openings, ∀ m ∈ opening.tail.dropLast, quoteMark m = true := by decide
      rcases Nat.le_total p.length (d :: ds).length with short | long
      · exact List.prefix_of_prefix_length_le start (List.prefix_append ..) short
      · obtain ⟨q, rfl⟩ := List.prefix_of_prefix_length_le (List.prefix_append ..) start long
        rw [List.getLast?_cons_cons] at last
        by_cases more : q = []
        · rw [more, List.append_nil]
        · have quoted := between _ mem m (by
            rw [List.tail_cons, List.dropLast_append_of_ne_nil more]
            exact List.mem_append_left _ (List.mem_of_getLast? last))
          simp [codeMark, quoted] at mark

/-- A text that ends in a mark of code keeps its lexemes whatever follows, unless an apostrophe in code finds its other
one there. -/
theorem lexFrom_append {lineBlank : Bool} {t : Text} {m : Char} (last : (lexFrom lineBlank t).getLast? = some (code m))
    (mark : codeMark m = true) (backslash : m ≠ '\\') :
    ∃ lineBlank', ∀ more, (code '\'' ∈ lexFrom lineBlank t → Unquoted more) →
      lexFrom lineBlank (t ++ more) = lexFrom lineBlank t ++ lexFrom lineBlank' more := by
  fun_induction lexFrom lineBlank t with
  | case1 => cases last
  | case2 lineBlank c cs l rest found ih =>
    have other : l ≠ code m := by
      rcases special?_shape found with ⟨body, rfl, -⟩ | ⟨o, b, cl, rfl, -⟩ <;> simp
    cases after : lexFrom false rest with
    | nil =>
      rw [after] at last
      exact absurd (by simpa using last) other
    | cons l' ls =>
      rw [after, List.getLast?_cons_cons, ← after] at last
      obtain ⟨lineBlank', parts⟩ := ih last
      refine ⟨lineBlank', fun more quiet => ?_⟩
      cases rest with
      | nil =>
        rw [lexFrom_nil] at after
        cases after
      | cons d ds =>
        have follow : Follows l (d :: ds) (d :: ds ++ more) := Or.inr (Or.inl rfl)
        have again := special?_follow found follow
        rw [← List.append_assoc, special?_append found] at again
        rw [lexFrom_some again, parts more fun mem => quiet (after ▸ List.mem_cons_of_mem _ mem), ← after,
          List.cons_append]
  | case3 lineBlank c cs found ih =>
    have ends : (c :: cs).getLast? = some m := by
      obtain ⟨ls, whole⟩ := List.getLast?_eq_some_iff.1 last
      have written : text (code c :: lexFrom (lineBlankAfter lineBlank c) cs) = c :: cs := by
        rw [text_cons, text_lexFrom]
        rfl
      rw [← written, whole, text_append]
      exact List.getLast?_concat
    have step : ∀ more, (code '\'' ∈ code c :: lexFrom (lineBlankAfter lineBlank c) cs → Unquoted more) →
        lexFrom lineBlank (c :: (cs ++ more)) = code c :: lexFrom (lineBlankAfter lineBlank c) (cs ++ more) :=
      fun more quiet => lexFrom_none (special?_none_append found ends mark backslash fun apostrophe =>
        quiet (apostrophe ▸ List.mem_cons_self))
    cases after : lexFrom (lineBlankAfter lineBlank c) cs with
    | nil =>
      have none : cs = [] := by
        rw [← text_lexFrom (lineBlankAfter lineBlank c) cs, after]
        rfl
      subst none
      exact ⟨_, fun more quiet => step more (after ▸ quiet)⟩
    | cons l ls =>
      rw [after, List.getLast?_cons_cons, ← after] at last
      obtain ⟨lineBlank', parts⟩ := ih last
      refine ⟨lineBlank', fun more quiet => ?_⟩
      rw [← after] at quiet ⊢
      rw [List.cons_append, step more quiet, parts more fun mem => quiet (List.mem_cons_of_mem _ mem), List.cons_append]

end EndpointSurvey
