/-
Where a text is split. A splitter passes a text character by character and remembers which quote is open and how many
brackets are; `Outside` tells by the text alone where no quote is open, and how deep the brackets are there:
- a quote opens a string, which the next quote closes that no backslash hides; behind an `@` it opens a verbatim string,
  which the next quote closes that no other quote follows;
- an apostrophe opens a character literal, which the next apostrophe or quote closes that no backslash hides;
- every other character stands outside quotes, and a closing bracket too many is passed over.

Main statements:
- `Splitter.Reached.step` and `Splitter.Reached.run`: what a state of the splitter means is kept by every character;
- `Splitter.outside_iff`: a splitter is outside quotes at a depth exactly where the text is;
- `segmentsFrom_cuts`: a separator stands between two segments exactly where the splitter cuts;
- `splitTop_cuts`: a text is made up of its segments and the separators between them, which are those that stand outside
  quotes and brackets, and what is read are the segments, trimmed, less a blank last one.
-/
import EndpointSurvey.Proofs.Source.Splitting
import EndpointSurvey.Proofs.Text.Spacing

namespace EndpointSurvey

/-! ## Outside quotes -/

/-- what may stand between the marks of a string or a character literal that `ends` characters close: a backslash hides
the character behind it -/
inductive Escaped (ends : Char → Bool) : Text → Prop where
  | nil : Escaped ends []
  | hidden {t : Text} (c : Char) (front : Escaped ends t) : Escaped ends (t ++ ['\\', c])
  | plain {t : Text} {c : Char} (front : Escaped ends t) (solid : c ≠ '\\') (inside : ends c = false) :
    Escaped ends (t ++ [c])

/-- what may stand between the marks of a verbatim string: quotes in pairs -/
inductive Doubled : Text → Prop where
  | nil : Doubled []
  | pair {t : Text} (front : Doubled t) : Doubled (t ++ ['"', '"'])
  | plain {t : Text} {c : Char} (front : Doubled t) (other : c ≠ '"') : Doubled (t ++ [c])

def endsString (c : Char) : Bool := c == '"'

def endsCharacter (c : Char) : Bool := c == '\'' || c == '"'

/-- the bracket depth behind a character; a closing bracket too many is passed over -/
def depthBehind (angle : Bool) (depth : Nat) (c : Char) : Nat :=
  if opens angle c then depth + 1 else if closes angle c then depth - 1 else depth

/-- Between what is read and what is ahead stands no quote that is still open, and so many brackets are. A quote behind
an `@` opens a verbatim string, which no quote closes that another one follows. -/
inductive Outside (angle : Bool) : Text → Nat → Text → Prop where
  | start (ahead : Text) : Outside angle [] 0 ahead
  | character {read ahead : Text} {depth : Nat} {c : Char} (before : Outside angle read depth (c :: ahead))
    (double : c ≠ '"') (single : c ≠ '\'') : Outside angle (read ++ [c]) (depthBehind angle depth c) ahead
  | string {read body ahead : Text} {depth : Nat} (before : Outside angle read depth ('"' :: (body ++ '"' :: ahead)))
    (regular : read.getLast? ≠ some '@') (inside : Escaped endsString body) :
    Outside angle (read ++ '"' :: (body ++ ['"'])) depth ahead
  | literal {read body ahead : Text} {depth : Nat} {close : Char}
    (before : Outside angle read depth ('\'' :: (body ++ close :: ahead))) (closes : endsCharacter close = true)
    (inside : Escaped endsCharacter body) : Outside angle (read ++ '\'' :: (body ++ [close])) depth ahead
  | verbatim {read body ahead : Text} {depth : Nat} (before : Outside angle read depth ('"' :: (body ++ '"' :: ahead)))
    (marked : read.getLast? = some '@') (inside : Doubled body) (single : ahead.head? ≠ some '"') :
    Outside angle (read ++ '"' :: (body ++ ['"'])) depth ahead

namespace Splitter

/-! ## The state after a text -/

/-- the state after a text -/
def run (angle : Bool) (s : Splitter) (t : Text) : Splitter := t.foldl (step angle) s

variable {angle : Bool} {depth : Nat} {before : Option Char}

theorem run_append (s : Splitter) (t u : Text) : s.run angle (t ++ u) = (s.run angle t).run angle u := List.foldl_append

theorem run_concat (s : Splitter) (t : Text) (c : Char) : s.run angle (t ++ [c]) = (s.run angle t).step angle c := by
  rw [run_append]
  rfl

theorem run_quoted (s : Splitter) (read body : Text) (mark close : Char) :
    s.run angle (read ++ mark :: (body ++ [close])) =
      (((s.run angle read).step angle mark).run angle body).step angle close := by
  rw [run_append, ← run_concat]
  rfl

theorem before_step (s : Splitter) (c : Char) : (s.step angle c).before = some c := by
  unfold step stepOutside
  cases s.quote <;> simp only <;> split_ifs <;> rfl

theorem before_run (t : Text) : (start.run angle t).before = t.getLast? := by
  rcases List.eq_nil_or_concat t with rfl | ⟨front, c, rfl⟩
  · rfl
  · rw [List.concat_eq_append, run_concat, before_step, List.getLast?_concat]

theorem step_of_outside {s : Splitter} {c : Char} (h : s.outside c = true) :
    s.step angle c = s.stepOutside angle c := by
  simp only [outside, Bool.or_eq_true, Bool.and_eq_true, beq_iff_eq, bne_iff_ne] at h
  unfold step
  rcases h with free | ⟨closing, other⟩
  · rw [free]
  · rw [closing]
    exact if_neg other

/-! ## What the states mean -/

/-- What backslashes hide keeps a quote open. -/
theorem run_escaped {ends : Char → Bool} {quote hidden : Quote} {body : Text} (inside : Escaped ends body)
    (hides : ∀ last, step angle ⟨quote, depth, last⟩ '\\' = ⟨hidden, depth, '\\'⟩)
    (shows : ∀ last c, step angle ⟨hidden, depth, last⟩ c = ⟨quote, depth, c⟩)
    (stays : ∀ last c, c ≠ '\\' → ends c = false → step angle ⟨quote, depth, last⟩ c = ⟨quote, depth, c⟩) :
    ∃ last, run angle ⟨quote, depth, before⟩ body = ⟨quote, depth, last⟩ := by
  induction inside with
  | nil => exact ⟨before, rfl⟩
  | @hidden t c _ ih =>
    obtain ⟨last, ih⟩ := ih
    exact ⟨c, by rw [List.append_cons, run_concat, run_concat, ih, hides, shows]⟩
  | @plain t c _ solid inside ih =>
    obtain ⟨last, ih⟩ := ih
    exact ⟨c, by rw [run_concat, ih, stays last c solid inside]⟩

theorem run_string {body : Text} (inside : Escaped endsString body) :
    ∃ last, run angle ⟨.regular, depth, before⟩ body = ⟨.regular, depth, last⟩ := by
  refine run_escaped inside (fun _ => rfl) (fun _ _ => rfl) fun last c solid inside => ?_
  have other : c ≠ '"' := by simpa [endsString] using inside
  exact (if_neg solid).trans (if_neg other)

theorem run_literal {body : Text} (inside : Escaped endsCharacter body) :
    ∃ last, run angle ⟨.character, depth, before⟩ body = ⟨.character, depth, last⟩ := by
  refine run_escaped inside (fun _ => rfl) (fun _ _ => rfl) fun last c solid inside => ?_
  have other : ¬ (c = '"' ∨ c = '\'') := by
    rw [or_comm]
    simpa [endsCharacter] using inside
  exact (if_neg solid).trans (if_neg other)

theorem run_verbatim {body : Text} (inside : Doubled body) :
    ∃ last, run angle ⟨.verbatim, depth, before⟩ body = ⟨.verbatim, depth, last⟩ := by
  induction inside with
  | nil => exact ⟨before, rfl⟩
  | @pair t _ ih =>
    obtain ⟨last, ih⟩ := ih
    exact ⟨'"', by rw [run_append, ih]; rfl⟩
  | @plain t c _ other ih =>
    obtain ⟨last, ih⟩ := ih
    refine ⟨c, ?_⟩
    rw [run_concat, ih]
    exact if_neg other

/-- A splitter behind what is outside quotes stands outside at the depth of the brackets. -/
theorem outside_of_outside {read ahead : Text} (h : Outside angle read depth ahead) :
    (start.run angle read).depth = depth ∧ ∀ c ∈ ahead.head?, (start.run angle read).outside c = true := by
  induction h with
  | start ahead => exact ⟨rfl, fun _ _ => rfl⟩
  | @character read ahead depth c _ double single ih =>
    obtain ⟨level, stands⟩ := ih
    have passed : (run ..).step angle c = _ := step_of_outside (stands c rfl)
    rw [stepOutside, if_neg double, if_neg single] at passed
    rw [run_concat, passed, depthBehind, level]
    split_ifs <;> exact ⟨rfl, fun _ _ => rfl⟩
  | @string read body ahead depth _ regular inside ih =>
    obtain ⟨level, stands⟩ := ih
    have opening : (run ..).step angle '"' = _ := step_of_outside (stands '"' rfl)
    rw [stepOutside, if_pos rfl, before_run, if_neg regular, level] at opening
    obtain ⟨last, through⟩ : ∃ last, run angle ⟨.regular, depth, '"'⟩ body = _ := run_string inside
    rw [run_quoted, opening, through]
    exact ⟨rfl, fun _ _ => rfl⟩
  | @literal read body ahead depth close _ closes inside ih =>
    obtain ⟨level, stands⟩ := ih
    have opening : (run ..).step angle '\'' = _ := step_of_outside (stands '\'' rfl)
    rw [stepOutside, if_neg (by decide), if_pos rfl, level] at opening
    obtain ⟨last, through⟩ : ∃ last, run angle ⟨.character, depth, '\''⟩ body = _ := run_literal inside
    rw [run_quoted, opening, through]
    simp only [endsCharacter, Bool.or_eq_true, beq_iff_eq] at closes
    rcases closes with rfl | rfl <;> exact ⟨rfl, fun _ _ => rfl⟩
  | @verbatim read body ahead depth _ marked inside single ih =>
    obtain ⟨level, stands⟩ := ih
    have opening : (run ..).step angle '"' = _ := step_of_outside (stands '"' rfl)
    rw [stepOutside, if_pos rfl, before_run, if_pos marked, level] at opening
    obtain ⟨last, through⟩ : ∃ last, run angle ⟨.verbatim, depth, '"'⟩ body = _ := run_verbatim inside
    rw [run_quoted, opening, through]
    refine ⟨rfl, fun c hc => ?_⟩
    have other : c ≠ '"' := by
      rintro rfl
      exact single hc
    show (false || (true && c != '"')) = true
    simpa using other

/-- what is read up to a quote that is still open, and what stands behind that quote -/
structure Opened (angle : Bool) (text : Text) (depth : Nat) (mark : Char) (body : Text) (read : Text) : Prop where
  text : text = read ++ mark :: body
  outside : ∀ ahead, Outside angle read depth (mark :: ahead)

/-- what a splitter in a state has read -/
def Reached (angle : Bool) (s : Splitter) (text : Text) : Prop :=
  match s.quote with
  | .outside => ∀ ahead, Outside angle text s.depth ahead
  | .regular => ∃ read body, Opened angle text s.depth '"' body read ∧ read.getLast? ≠ some '@' ∧
      Escaped endsString body
  | .regularHidden => ∃ read body, Opened angle text s.depth '"' (body ++ ['\\']) read ∧ read.getLast? ≠ some '@' ∧
      Escaped endsString body
  | .character => ∃ read body, Opened angle text s.depth '\'' body read ∧ Escaped endsCharacter body
  | .characterHidden => ∃ read body, Opened angle text s.depth '\'' (body ++ ['\\']) read ∧ Escaped endsCharacter body
  | .verbatim => ∃ read body, Opened angle text s.depth '"' body read ∧ read.getLast? = some '@' ∧ Doubled body
  | .verbatimClosing => ∃ read body, Opened angle text s.depth '"' (body ++ ['"']) read ∧ read.getLast? = some '@' ∧
      Doubled body

theorem Opened.snoc {text body read : Text} {mark : Char} (h : Opened angle text depth mark body read) (c : Char) :
    Opened angle (text ++ [c]) depth mark (body ++ [c]) read :=
  ⟨by rw [h.text, List.append_assoc]; rfl, h.outside⟩

theorem Reached.outside {s : Splitter} {text : Text} (h : Reached angle s text) {c : Char} (stands : s.outside c = true)
    (ahead : Text) : Outside angle text s.depth (c :: ahead) := by
  simp only [Splitter.outside, Bool.or_eq_true, Bool.and_eq_true, beq_iff_eq, bne_iff_ne] at stands
  unfold Reached at h
  rcases stands with free | ⟨closing, other⟩
  · rw [free] at h
    exact h _
  · rw [closing] at h
    obtain ⟨read, body, opened, marked, inside⟩ := h
    rw [opened.text]
    exact .verbatim (opened.outside _) marked inside fun e => other (Option.some.inj e)

theorem Reached.stepOutside {s : Splitter} {text : Text} (before : s.before = text.getLast?) {c : Char}
    (free : ∀ ahead, Outside angle text s.depth (c :: ahead)) :
    Reached angle (s.stepOutside angle c) (text ++ [c]) := by
  have opened : ∀ mark, mark = c → Opened angle (text ++ [c]) s.depth mark [] text := by
    rintro mark rfl
    exact ⟨rfl, free⟩
  unfold Splitter.stepOutside
  split
  · next double =>
    split
    · next marked => exact ⟨text, [], opened _ double.symm, by rw [← before, marked], .nil⟩
    · next regular => exact ⟨text, [], opened _ double.symm, by rwa [← before], .nil⟩
  · next double =>
    split
    · next single => exact ⟨text, [], opened _ single.symm, .nil⟩
    · next single =>
      have behind := fun ahead => Outside.character (free ahead) double single
      unfold depthBehind at behind
      split_ifs at behind ⊢ <;> exact behind

/-- **One step.** What a state means is kept by every character that a splitter passes. -/
theorem Reached.step {s : Splitter} {text : Text} (h : Reached angle s text) (before : s.before = text.getLast?)
    (c : Char) : Reached angle (s.step angle c) (text ++ [c]) := by
  by_cases stands : s.outside c = true
  · rw [step_of_outside stands]
    exact .stepOutside before fun ahead => h.outside stands ahead
  · obtain ⟨quote, depth, last⟩ := s
    cases quote with
    | outside => exact absurd rfl stands
    | regular =>
      obtain ⟨read, body, opened, regular, inside⟩ := h
      unfold Splitter.step
      dsimp only
      split_ifs with backslash quote
      · subst backslash
        exact ⟨read, body, opened.snoc _, regular, inside⟩
      · subst quote
        intro ahead
        rw [(opened.snoc _).text]
        exact .string (opened.outside _) regular inside
      · exact ⟨read, body ++ [c], opened.snoc _, regular, inside.plain backslash (by simpa [endsString] using quote)⟩
    | regularHidden =>
      obtain ⟨read, body, opened, regular, inside⟩ := h
      refine ⟨read, body ++ ['\\', c], ?_, regular, inside.hidden c⟩
      have longer := opened.snoc c
      rwa [List.append_assoc] at longer
    | character =>
      obtain ⟨read, body, opened, inside⟩ := h
      unfold Splitter.step
      dsimp only
      split_ifs with backslash quote
      · subst backslash
        exact ⟨read, body, opened.snoc _, inside⟩
      · intro ahead
        rw [(opened.snoc _).text]
        refine .literal (opened.outside _) ?_ inside
        rcases quote with rfl | rfl <;> rfl
      · refine ⟨read, body ++ [c], opened.snoc _, inside.plain backslash ?_⟩
        rw [or_comm] at quote
        simpa [endsCharacter] using quote
    | characterHidden =>
      obtain ⟨read, body, opened, inside⟩ := h
      refine ⟨read, body ++ ['\\', c], ?_, inside.hidden c⟩
      have longer := opened.snoc c
      rwa [List.append_assoc] at longer
    | verbatim =>
      obtain ⟨read, body, opened, marked, inside⟩ := h
      unfold Splitter.step
      dsimp only
      split_ifs with quote
      · subst quote
        exact ⟨read, body, opened.snoc _, marked, inside⟩
      · exact ⟨read, body ++ [c], opened.snoc _, marked, inside.plain quote⟩
    | verbatimClosing =>
      obtain ⟨read, body, opened, marked, inside⟩ := h
      have quote : c = '"' := by simpa [Splitter.outside] using stands
      subst quote
      refine ⟨read, body ++ ['"', '"'], ?_, marked, inside.pair⟩
      have longer := opened.snoc '"'
      rwa [List.append_assoc] at longer

/-- **A run.** What a state means is kept by every text that a splitter passes. -/
theorem Reached.run {s : Splitter} {read : Text} (h : Reached angle s read) (before : s.before = read.getLast?)
    (text : Text) : Reached angle (s.run angle text) (read ++ text) := by
  induction text generalizing s read with
  | nil => rwa [List.append_nil]
  | cons c cs ih =>
    rw [List.append_cons]
    exact ih (h.step before c) (by rw [before_step, List.getLast?_concat])

theorem reached_run (text : Text) : Reached angle (start.run angle text) text :=
  Reached.run (show Reached angle start [] from fun ahead => .start ahead) rfl text

/-- A splitter stands outside quotes at a depth exactly where no quote is open and so many brackets are. -/
theorem outside_iff {read ahead : Text} {c : Char} : Outside angle read depth (c :: ahead) ↔
    (start.run angle read).outside c = true ∧ (start.run angle read).depth = depth := by
  constructor
  · intro h
    obtain ⟨level, stands⟩ := outside_of_outside h
    exact ⟨stands c rfl, level⟩
  · rintro ⟨stands, rfl⟩
    exact (reached_run read).outside stands ahead

end Splitter

/-! ## The cuts of a text -/

/-- what precedes and what follows a separator between two of the segments -/
def CutBetween (separator : Char) (parts : List Text) (before after : Text) : Prop :=
  ∃ front back, parts = front ++ back ∧ front ≠ [] ∧ back ≠ [] ∧ before = Text.join [separator] front ∧
    after = Text.join [separator] back

section
variable {separator : Char} {angle : Bool} {parts : List Text} {before after : Text}

theorem join_eq_nil (filled : parts ≠ []) (empty : Text.join [separator] parts = []) : parts = [[]] := by
  cases parts with
  | nil => exact absurd rfl filled
  | cons part more =>
    cases more with
    | nil => simpa [Text.join] using empty
    | cons p ps => simp [Text.join_cons] at empty

theorem join_empty_cons (filled : parts ≠ []) :
    Text.join [separator] ([] :: parts) = separator :: Text.join [separator] parts := by
  obtain ⟨part, more, rfl⟩ := List.exists_cons_of_ne_nil filled
  exact Text.join_cons ..

theorem cutBetween_nil (filled : parts ≠ []) :
    CutBetween separator ([] :: parts) [] after ↔ after = Text.join [separator] parts := by
  constructor
  · rintro ⟨front, back, whole, inhabited, -, empty, rfl⟩
    obtain rfl := join_eq_nil inhabited empty.symm
    rw [(List.cons.inj whole).2]
    rfl
  · rintro rfl
    exact ⟨[[]], parts, rfl, List.cons_ne_nil _ _, filled, rfl, rfl⟩

theorem cutBetween_cons :
    CutBetween separator ([] :: parts) (separator :: before) after ↔ CutBetween separator parts before after := by
  constructor
  · rintro ⟨front, back, whole, inhabited, more, read, ahead⟩
    obtain ⟨first, rest, rfl⟩ := List.exists_cons_of_ne_nil inhabited
    obtain ⟨rfl, rfl⟩ := List.cons.inj whole
    have filled : rest ≠ [] := by
      rintro rfl
      cases read
    rw [join_empty_cons filled] at read
    exact ⟨rest, back, rfl, filled, more, (List.cons.inj read).2, ahead⟩
  · rintro ⟨front, back, rfl, filled, more, rfl, rfl⟩
    exact ⟨[] :: front, back, rfl, List.cons_ne_nil _ _, more, (join_empty_cons filled).symm, rfl⟩

theorem not_cutBetween_extendFirst (c : Char) : ¬ CutBetween separator (extendFirst c parts) [] after := by
  rintro ⟨front, back, whole, inhabited, -, empty, -⟩
  obtain rfl := join_eq_nil inhabited empty.symm
  cases parts <;> cases (List.cons.inj whole).1

theorem cutBetween_extendFirst (filled : parts ≠ []) (c : Char) :
    CutBetween separator (extendFirst c parts) (c :: before) after ↔ CutBetween separator parts before after := by
  obtain ⟨part, rest, rfl⟩ := List.exists_cons_of_ne_nil filled
  constructor
  · rintro ⟨front, back, whole, inhabited, more, read, ahead⟩
    obtain ⟨first, others, rfl⟩ := List.exists_cons_of_ne_nil inhabited
    obtain ⟨rfl, rfl⟩ := List.cons.inj whole
    have joined := read.trans (join_extendFirst [separator] c (List.cons_ne_nil part others))
    exact ⟨part :: others, back, rfl, List.cons_ne_nil _ _, more, (List.cons.inj joined).2, ahead⟩
  · rintro ⟨front, back, whole, inhabited, more, rfl, rfl⟩
    obtain ⟨first, others, rfl⟩ := List.exists_cons_of_ne_nil inhabited
    obtain ⟨rfl, rfl⟩ := List.cons.inj whole
    exact ⟨(c :: part) :: others, back, rfl, List.cons_ne_nil _ _, more,
      (join_extendFirst [separator] c (List.cons_ne_nil part others)).symm, rfl⟩

/-- A separator stands between two segments exactly where the splitter cuts. -/
theorem segmentsFrom_cuts (s : Splitter) (before after : Text) :
    CutBetween separator (segmentsFrom separator angle s (before ++ separator :: after)) before after ↔
      (s.run angle before).cutsAt separator angle separator = true := by
  induction before generalizing s with
  | nil =>
    rw [List.nil_append, segmentsFrom]
    split
    · next cut => exact iff_of_true ((cutBetween_nil (segmentsFrom_ne_nil _ _ _ _)).2 (segmentsFrom_join ..).symm) cut
    · next inside => exact iff_of_false (not_cutBetween_extendFirst _) inside
  | cons c cs ih =>
    rw [List.cons_append, segmentsFrom]
    split
    · next cut =>
      obtain rfl : c = separator := by
        simp only [Splitter.cutsAt, Bool.and_eq_true, beq_iff_eq] at cut
        exact cut.1.1.1.1.1.2
      exact cutBetween_cons.trans (ih _)
    · exact (cutBetween_extendFirst (segmentsFrom_ne_nil _ _ _ _) c).trans (ih _)

theorem splitTop_concat {front : List Text} {last : Text} {t : Text}
    (whole : segments separator angle t = front ++ [last]) :
    splitTop separator angle t = front.map Text.trim ++ if last.trim = [] then [] else [last.trim] := by
  rw [splitTop, whole, List.map_append, List.map_singleton, List.getLast?_concat]
  split
  · next blank => rw [List.dropLast_concat, if_pos (Option.some.inj blank), List.append_nil]
  · next filled => rw [if_neg fun e => filled (congrArg some e)]

/-- **Cuts.** A text is made up of segments with the separator between them, and what is read of it are the segments,
trimmed, without a last one that is blank. A separator stands between two segments exactly if it stands outside quotes
and brackets, as they are opened and closed from the start of the text on; so a segment holds none of those. -/
theorem splitTop_cuts (even : Splitter.evenMark angle separator = true) (t : Text) : ∃ front last,
    t = Text.join [separator] (front ++ [last]) ∧
      splitTop separator angle t = (front.map Text.trim ++ if last.trim = [] then [] else [last.trim]) ∧
      ∀ before after, t = before ++ separator :: after →
        (CutBetween separator (front ++ [last]) before after ↔ Outside angle before 0 (separator :: after)) := by
  obtain ⟨front, last, whole⟩ : ∃ front last, segments separator angle t = front ++ [last] := by
    rcases List.eq_nil_or_concat (segments separator angle t) with none | ⟨front, last, whole⟩
    · exact absurd none (segmentsFrom_ne_nil _ _ _ _)
    · exact ⟨front, last, whole.trans List.concat_eq_append⟩
  refine ⟨front, last, ?_, splitTop_concat whole, ?_⟩
  · rw [← whole, segments_join]
  · rintro before after rfl
    rw [← whole, segments, segmentsFrom_cuts, Splitter.outside_iff]
    have plain : separator ≠ '"' ∧ separator ≠ '\'' ∧ opens angle separator = false ∧
        closes angle separator = false := by
      simpa [Splitter.evenMark, and_assoc] using even
    simp [Splitter.cutsAt, plain]

end

/-- a parameter list with separators inside brackets, inside a string and at the end -/
def listedPairs : Text := "Pair<int, int> p, [Named(\"a, b\")] string q, ".toList

theorem splitTop_cuts_pairs : Splitter.evenMark true ',' = true ∧
    splitTop ',' true listedPairs = ["Pair<int, int> p".toList, "[Named(\"a, b\")] string q".toList] ∧ ∃ front last,
    listedPairs = Text.join [','] (front ++ [last]) ∧
      splitTop ',' true listedPairs = (front.map Text.trim ++ if last.trim = [] then [] else [last.trim]) ∧
      ∀ before after, listedPairs = before ++ ',' :: after →
        (CutBetween ',' (front ++ [last]) before after ↔ Outside true before 0 (',' :: after)) :=
  ⟨by decide, by decide +kernel, splitTop_cuts (by decide) listedPairs⟩

end EndpointSurvey
