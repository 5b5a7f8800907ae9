/-
Words of joined texts: a blank ends a word, and any character that is no word character ends a run. A text whose words
stand one space apart is collapsed already, and parts without a separator come back from the text that it joins them to.
A stretch without a character stands on one side of each place where that character is, and blanks or other characters
that it lacks may be cut off around it.

Main statements: `splitOn_join`, `words_append_blank`, `collapse_spaced`, `runsAfter_append_mark`, `runWords_append_mark`,
`beforeWord_found`, `infix_append_cons_iff`, `infix_trim_iff` and `infix_join_iff`.
-/
import EndpointSurvey.Text.Blank
import EndpointSurvey.Text.WordRun
import Mathlib.Data.List.Infix
import Mathlib.Data.List.TakeWhile

namespace EndpointSurvey

/-- A character for which a test on characters fails is none of those for which it holds. -/
theorem ne_of_test {p : Char → Bool} {c d : Char} (hc : p c = true) (hd : p d = false) : c ≠ d := by
  rintro rfl
  rw [hc] at hd
  cases hd

/-- the code points of the blank characters -/
def blankPoints : List Nat :=
  [9, 10, 11, 12, 13, 28, 29, 30, 31, 32, 0x85, 0xA0, 0x1680, 0x2000, 0x2001, 0x2002, 0x2003, 0x2004, 0x2005, 0x2006,
    0x2007, 0x2008, 0x2009, 0x200A, 0x2028, 0x2029, 0x202F, 0x205F, 0x3000]

theorem toNat_mem_blankPoints {c : Char} (h : blank c = true) : c.toNat ∈ blankPoints := by
  simp only [blank, Bool.or_eq_true, Bool.and_eq_true, beq_iff_eq, decide_eq_true_eq] at h
  simp only [blankPoints, List.mem_cons, List.not_mem_nil, or_false]
  omega

/-- No blank is a word character. -/
theorem not_wordChar_of_blank {c : Char} (h : blank c = true) : wordChar c = false := by
  have each : ∀ n ∈ blankPoints, wordChar (Char.ofNat n) = false := by decide +kernel
  rw [← Char.ofNat_toNat c]
  exact each c.toNat (toNat_mem_blankPoints h)

theorem not_blank_of_wordChar {c : Char} (h : wordChar c = true) : blank c = false := by
  by_contra space
  rw [not_wordChar_of_blank (by simpa using space)] at h
  cases h

namespace Text

/-- What holds of all characters of a text may be tested one after another. -/
theorem forall_of_all {p : Char → Prop} [DecidablePred p] {t : Text} (h : t.all (decide <| p ·) = true) :
    ∀ c ∈ t, p c := fun c hc => of_decide_eq_true (List.all_eq_true.1 h c hc)

/-- What is said of all characters of a text is decided by these, and not by going through all characters there are. -/
instance (priority := high) (t : Text) (p : Char → Prop) [DecidablePred p] : Decidable (∀ c ∈ t, p c) :=
  List.decidableBAll p t

/-! ## Joining -/

theorem join_cons (separator first second : Text) (rest : List Text) :
    join separator (first :: second :: rest) = first ++ (separator ++ join separator (second :: rest)) := by
  simp [join, List.intercalate]

/-- What holds of the characters of a separator and of all parts holds of those of the joined text. -/
theorem forall_mem_join {p : Char → Prop} {separator : Text} {parts : List Text} (between : ∀ c ∈ separator, p c)
    (inside : ∀ part ∈ parts, ∀ c ∈ part, p c) : ∀ c ∈ join separator parts, p c := by
  induction parts with
  | nil => exact fun c hc => absurd hc List.not_mem_nil
  | cons part rest ih =>
    obtain ⟨first, others⟩ := List.forall_mem_cons.1 inside
    cases rest with
    | nil => simpa [join] using first
    | cons next rest =>
      rw [join_cons]
      exact List.forall_mem_append.2 ⟨first, List.forall_mem_append.2 ⟨between, ih others⟩⟩

/-- What follows joined parts belongs to the last of them. -/
theorem join_append_last (front : List Text) (last after : Text) :
    join "," (front ++ [last]) ++ after = join "," (front ++ [last ++ after]) := by
  induction front with
  | nil => simp [join]
  | cons t ts ih =>
    obtain ⟨u, us, e⟩ := List.exists_cons_of_ne_nil (l := ts ++ [last]) (by simp)
    obtain ⟨u', us', e'⟩ := List.exists_cons_of_ne_nil (l := ts ++ [last ++ after]) (by simp)
    rw [List.cons_append, List.cons_append, e, e', join_cons, join_cons, ← e, ← e', ← ih, List.append_assoc,
      List.append_assoc]

/-! ## Parts between separators -/

theorem splitOn_eq (sep : Char) (t : Text) : splitOn sep t = List.splitOn sep t := by
  induction t with
  | nil => rfl
  | cons c cs ih =>
    rw [splitOn, List.splitOn_eq_splitOnP, List.splitOnP_cons_eq_if_modifyHead, ← List.splitOn_eq_splitOnP, ← ih]
    by_cases h : c = sep
    · simp [h]
    · simp only [h, if_false, beq_iff_eq]
      cases parts : splitOn sep cs with
      | nil => exact absurd parts (splitOn_ne_nil sep cs)
      | cons part others => rfl

/-- Parts without the separator come back from the joined text. -/
theorem splitOn_join {sep : Char} {parts : List Text} (h : ∀ part ∈ parts, sep ∉ part) (inhabited : parts ≠ []) :
    splitOn sep (join [sep] parts) = parts := by
  rw [splitOn_eq]
  exact List.splitOn_intercalate sep h inhabited

/-- No part holds the separator. -/
theorem not_mem_of_mem_splitOn {sep : Char} {part t : Text} (h : part ∈ splitOn sep t) : sep ∉ part := by
  induction t generalizing part with
  | nil =>
    rw [splitOn, List.mem_singleton] at h
    subst h
    exact List.not_mem_nil
  | cons c cs ih =>
    rw [splitOn] at h
    split at h
    · rcases List.mem_cons.1 h with rfl | later
      · exact List.not_mem_nil
      · exact ih later
    · next different =>
      cases parts : splitOn sep cs with
      | nil => exact absurd parts (splitOn_ne_nil sep cs)
      | cons first others =>
        rw [parts] at h
        rcases List.mem_cons.1 h with rfl | later
        · rw [List.mem_cons, not_or]
          exact ⟨Ne.symm different, ih (by rw [parts]; exact List.mem_cons_self)⟩
        · exact ih (by rw [parts]; exact List.mem_cons_of_mem _ later)

/-! ## Runs up to a character of another kind -/

section
variable {p : Char → Bool}

theorem takeWhile_append_stop {c : Char} (h : p c = false) (s t : Text) :
    (s ++ c :: t).takeWhile p = s.takeWhile p := by
  induction s with
  | nil => exact List.takeWhile_cons_of_neg (by rw [h]; exact Bool.false_ne_true)
  | cons d ds ih => rw [List.cons_append, List.takeWhile_cons, List.takeWhile_cons, ih]

theorem dropWhile_append_stop {c : Char} (h : p c = false) (s t : Text) :
    (s ++ c :: t).dropWhile p = s.dropWhile p ++ c :: t := by
  induction s with
  | nil => exact List.dropWhile_cons_of_neg (by rw [h]; exact Bool.false_ne_true)
  | cons d ds ih => rw [List.cons_append, List.dropWhile_cons, List.dropWhile_cons, ih]; split <;> rfl

theorem takeWhile_padded {before t : Text} (pad : ∀ c ∈ before, p c = true) (first : ∀ c ∈ t.head?, p c = false) :
    (before ++ t).takeWhile p = before := by
  rw [List.takeWhile_append_of_pos pad]
  cases t with
  | nil => exact List.append_nil before
  | cons c cs => rw [List.takeWhile_cons_of_neg (by rw [first c rfl]; exact Bool.false_ne_true), List.append_nil]

theorem dropWhile_padded {before t : Text} (pad : ∀ c ∈ before, p c = true) (first : ∀ c ∈ t.head?, p c = false) :
    (before ++ t).dropWhile p = t := by
  rw [List.dropWhile_append_of_pos pad]
  cases t with
  | nil => rfl
  | cons c cs => exact List.dropWhile_cons_of_neg (by rw [first c rfl]; exact Bool.false_ne_true)

theorem dropEnd_padded {t after : Text} (last : ∀ c ∈ t.getLast?, p c = false) (pad : ∀ c ∈ after, p c = true) :
    dropEnd p (t ++ after) = t := by
  have reversed : ∀ c ∈ t.reverse.head?, p c = false := by rwa [List.head?_reverse]
  rw [dropEnd, List.reverse_append, dropWhile_padded (fun c hc => pad c (List.mem_reverse.1 hc)) reversed,
    List.reverse_reverse]

theorem first_dropWhile (p : Char → Bool) (t : Text) : ∀ c ∈ (t.dropWhile p).head?, p c = false := by
  intro c first
  have stop := List.head?_dropWhile_not p t
  rw [Option.mem_def.1 first] at stop
  simpa using stop

theorem last_dropEnd (p : Char → Bool) (t : Text) : ∀ c ∈ (dropEnd p t).getLast?, p c = false := by
  intro c last
  rw [dropEnd, List.getLast?_reverse] at last
  exact first_dropWhile p t.reverse c last

theorem of_mem_takeEnd {c : Char} {t : Text} (h : c ∈ takeEnd p t) : p c = true :=
  List.mem_takeWhile_imp (List.mem_reverse.1 h)

end

/-- The blanks in front of a text are counted. -/
theorem leadingBlanks_padded {s t : Text} (pad : ∀ c ∈ s, blank c = true) (first : ∀ c ∈ t.head?, blank c = false) :
    leadingBlanks (s ++ t) = s.length := by
  have stop : t.takeWhile blank = [] := by
    cases t with
    | nil => rfl
    | cons c cs => exact List.takeWhile_cons_of_neg (by rw [first c rfl]; exact Bool.false_ne_true)
  rw [leadingBlanks, List.takeWhile_append_of_pos pad, stop, List.append_nil]

/-- Only the blanks around a text are dropped. -/
theorem trim_padded {s t u : Text} (left : ∀ c ∈ s, blank c = true) (right : ∀ c ∈ u, blank c = true)
    (first : ∀ c ∈ t.head?, blank c = false) (last : ∀ c ∈ t.getLast?, blank c = false) :
    trim (s ++ (t ++ u)) = t := by
  rw [trim, trimRight, trimLeft]
  by_cases nothing : t = []
  · subst nothing
    rw [List.nil_append, List.dropWhile_eq_nil_iff.2 (List.forall_mem_append.2 ⟨left, right⟩)]
    rfl
  · have first' : ∀ c ∈ (t ++ u).head?, blank c = false := by
      rwa [List.head?_append, List.head?_eq_some_head nothing, Option.some_or, ← List.head?_eq_some_head nothing]
    rw [dropWhile_padded left first', dropEnd_padded last right]

/-- A text is what is left of it when trimmed, with blanks around it. -/
theorem exists_trim (t : Text) : ∃ before after, t = before ++ (trim t ++ after) ∧ (∀ c ∈ before, blank c = true) ∧
    (∀ c ∈ after, blank c = true) ∧ (∀ c ∈ (trim t).head?, blank c = false) ∧
    ∀ c ∈ (trim t).getLast?, blank c = false := by
  have back := dropEnd_append_takeEnd blank (t.dropWhile blank)
  refine ⟨t.takeWhile blank, takeEnd blank (t.dropWhile blank), ?_, fun c hc => List.mem_takeWhile_imp hc,
    fun c hc => of_mem_takeEnd hc, fun c hc => ?_, last_dropEnd blank (t.dropWhile blank)⟩
  · rw [trim, trimRight, trimLeft, back, List.takeWhile_append_dropWhile]
  · refine first_dropWhile blank t c ?_
    rw [trim, trimRight, trimLeft] at hc
    rw [← back, List.head?_append, Option.mem_def.1 hc]
    rfl

theorem trim_ends {t : Text} (first : ∀ c ∈ t.head?, blank c = false) (last : ∀ c ∈ t.getLast?, blank c = false) :
    trim t = t := by
  have := trim_padded (s := []) (u := []) (by simp) (by simp) first last
  rwa [List.nil_append, List.append_nil] at this

theorem last_concat {c : Char} (solid : blank c = false) (t : Text) : ∀ d ∈ (t ++ [c]).getLast?, blank d = false := by
  rw [List.getLast?_concat]
  rintro _ ⟨⟩
  exact solid

/-- What stands between solid characters is kept, whatever follows. -/
theorem exists_trim_append {s : Text} (first : ∀ c ∈ s.head?, blank c = false)
    (last : ∀ c ∈ s.getLast?, blank c = false) (t : Text) : ∃ u, trim (s ++ t) = s ++ u := by
  by_cases nothing : s = []
  · exact ⟨trim t, by rw [nothing, List.nil_append, List.nil_append]⟩
  · have first' : ∀ c ∈ (s ++ t).head?, blank c = false := by
      rwa [List.head?_append, List.head?_eq_some_head nothing, Option.some_or, ← List.head?_eq_some_head nothing]
    obtain ⟨u, e⟩ := takeEnd_append_within last t
    have parts := dropEnd_append_takeEnd blank (s ++ t)
    conv at parts => rhs; rw [← e, ← List.append_assoc]
    have left := @dropWhile_padded blank [] (s ++ t) (by simp) first'
    rw [List.nil_append] at left
    exact ⟨u, by rw [trim, trimLeft, left]; exact List.append_cancel_right parts⟩

/-! ## Words between blanks -/

theorem words_cons_blank {c : Char} (h : blank c = true) (t : Text) : words (c :: t) = words t := by
  rw [words, if_pos h]

theorem words_cons {c : Char} (h : blank c = false) (t : Text) :
    words (c :: t) = (c :: t.takeWhile (!blank ·)) :: words (t.dropWhile (!blank ·)) := by
  rw [words, if_neg (by rw [h]; exact Bool.false_ne_true)]

/-- A blank ends a word. -/
theorem words_append_blank {c : Char} (h : blank c = true) (s t : Text) :
    words (s ++ c :: t) = words s ++ words t := by
  fun_induction words s with
  | case1 => exact words_cons_blank h t
  | case2 d ds hd ih => rw [List.cons_append, words_cons_blank hd, ih]
  | case3 d ds hd ih =>
    have stop : (!blank c) = false := by rw [h]; rfl
    rw [List.cons_append, words_cons (by simpa using hd), takeWhile_append_stop stop, dropWhile_append_stop stop, ih]
    rfl

theorem words_blanks_append {g : Text} (h : ∀ c ∈ g, blank c = true) (t : Text) : words (g ++ t) = words t := by
  induction g with
  | nil => rfl
  | cons c cs ih =>
    rw [List.cons_append, words_cons_blank (h c List.mem_cons_self), ih fun d hd => h d (List.mem_cons_of_mem c hd)]

theorem words_blanks {t : Text} (h : ∀ c ∈ t, blank c = true) : words t = [] := by
  have := words_blanks_append h []
  rwa [List.append_nil, words] at this

theorem words_append_blanks {g : Text} (h : ∀ c ∈ g, blank c = true) (t : Text) : words (t ++ g) = words t := by
  cases g with
  | nil => rw [List.append_nil]
  | cons c cs =>
    rw [words_append_blank (h c List.mem_cons_self), words_blanks fun d hd => h d (List.mem_cons_of_mem c hd),
      List.append_nil]

theorem words_trim (t : Text) : words (trim t) = words t := by
  obtain ⟨before, after, whole, left, right, -, -⟩ := exists_trim t
  conv => rhs; rw [whole]
  rw [words_blanks_append left, words_append_blanks right]

/-- The words of joined lines are those of the lines. -/
theorem words_join_cons (y : Text) (lines : List Text) :
    words (join " " (y :: lines)) = words y ++ words (join " " lines) := by
  cases lines with
  | nil => simp [join, words]
  | cons line lines =>
    rw [join_cons]
    exact words_append_blank (by decide) _ _

theorem words_single {t : Text} (filled : t ≠ []) (h : ∀ c ∈ t, blank c = false) : words t = [t] := by
  obtain ⟨c, cs, rfl⟩ := List.exists_cons_of_ne_nil filled
  have solid : ∀ x ∈ cs, (!blank x) = true := fun x hx => by rw [h x (by simp [hx])]; rfl
  rw [words_cons (h c (by simp)), List.takeWhile_eq_self_iff.2 solid, List.dropWhile_eq_nil_iff.2 solid, words]

/-- Every blank is a single space between two words; `afterBlank` says that one has just been passed, as at the
start. -/
def spaced (afterBlank : Bool) : Text → Bool
  | [] => !afterBlank
  | c :: cs => if blank c then c == ' ' && !afterBlank && spaced true cs else spaced false cs

theorem spaced_append {afterBlank : Bool} {s : Text} (h : spaced afterBlank s = true) (t : Text) :
    spaced afterBlank (s ++ t) = spaced false t := by
  induction s generalizing afterBlank with
  | nil => cases afterBlank <;> first | rfl | cases h
  | cons c cs ih =>
    unfold spaced at h
    rw [List.cons_append, spaced]
    split at h
    · next hc =>
      simp only [Bool.and_eq_true] at h
      rw [if_pos hc, ih h.2, h.1.1, h.1.2]
      rfl
    · next hc => rw [if_neg hc, ih h]

theorem spaced_solid {t : Text} (h : ∀ c ∈ t, blank c = false) : spaced false t = true := by
  induction t with
  | nil => rfl
  | cons c cs ih =>
    rw [spaced, h c (by simp)]
    exact ih fun d hd => h d (by simp [hd])

theorem spaced_last {afterBlank : Bool} {t : Text} (h : spaced afterBlank t = true) :
    ∀ c ∈ t.getLast?, blank c = false := by
  induction t generalizing afterBlank with
  | nil => simp
  | cons c cs ih =>
    have tail : cs = [] → blank c = false := by
      rintro rfl
      by_contra hb
      rw [Bool.not_eq_false] at hb
      simp [spaced, hb] at h
    have rest : ∃ afterBlank, spaced afterBlank cs = true := by
      unfold spaced at h
      split at h
      · simp only [Bool.and_eq_true] at h
        exact ⟨_, h.2⟩
      · exact ⟨_, h⟩
    cases cs with
    | nil => simpa using tail rfl
    | cons d ds =>
      obtain ⟨after, good⟩ := rest
      rw [List.getLast?_cons_cons]
      exact ih good

theorem spaced_rest {t : Text} (h : spaced false t = true) :
    t.dropWhile (!blank ·) = [] ∨ ∃ rest, t.dropWhile (!blank ·) = ' ' :: rest ∧ spaced true rest = true := by
  induction t with
  | nil => exact .inl rfl
  | cons c cs ih =>
    unfold spaced at h
    split at h
    · next hc =>
      simp only [Bool.and_eq_true, beq_iff_eq] at h
      rw [List.dropWhile_cons_of_neg (by simp [hc]), h.1.1]
      exact .inr ⟨cs, rfl, h.2⟩
    · next hc =>
      rw [List.dropWhile_cons_of_pos (by simpa using hc)]
      exact ih h

/-- A text whose words stand one space apart is collapsed already. -/
theorem collapse_spaced {t : Text} (h : spaced true t = true) : collapse t = t := by
  unfold collapse
  induction hn : t.length using Nat.strongRecOn generalizing t with
  | ind n ih =>
    cases t with
    | nil => cases h
    | cons c cs =>
      unfold spaced at h
      split at h
      · simp at h
      · next hc =>
        have solid : blank c = false := by simpa using hc
        rw [words_cons solid]
        have parts := List.takeWhile_append_dropWhile (p := (!blank ·)) (l := cs)
        rcases spaced_rest h with none | ⟨rest, more, good⟩
        · rw [none, List.append_nil] at parts
          rw [none, parts, words]
          simp [join]
        · have shorter : rest.length < n := by
            have := congrArg List.length parts
            rw [more] at this
            simp at this hn
            omega
          have tail := ih rest.length shorter good rfl
          have filled : words rest ≠ [] := by
            intro e
            rw [e] at tail
            rw [← tail] at good
            cases good
          obtain ⟨w, ws, hw⟩ := List.exists_cons_of_ne_nil filled
          rw [more, words_cons_blank (by decide), hw]
          rw [hw] at tail
          conv => rhs; rw [← parts, more, ← tail]
          simp [join, List.intercalate]

/-! ## Runs of word characters -/

/-- the runs of word characters in a text -/
def runWords (t : Text) : List Text := (runs t).map (·.word)

theorem hasWord_eq (word t : Text) : hasWord word t = (runWords t).contains word := by
  rw [hasWord, runWords, List.contains_eq_any_beq, List.any_map]
  congr 1
  funext run
  exact BEq.comm

theorem runsAfter_words (before t : Text) : (runsAfter before t).map (·.word) = runWords t := by
  have anywhere : ∀ (before before' t : Text),
      (runsAfter before t).map (·.word) = (runsAfter before' t).map (·.word) := by
    intro before before' t
    fun_induction runsAfter before t generalizing before' with
    | case1 => simp [runsAfter]
    | case2 before c cs h run ih =>
      rw [runsAfter, if_pos h, List.map_cons, List.map_cons]
      exact congrArg (_ :: ·) (ih _)
    | case3 before c cs h ih =>
      rw [runsAfter, if_neg h]
      exact ih _
  exact anywhere before [] t

theorem runsAfter_marks_append {g : Text} (marks : ∀ c ∈ g, wordChar c = false) (before t : Text) :
    runsAfter before (g ++ t) = runsAfter (g.reverse ++ before) t := by
  induction g generalizing before with
  | nil => rfl
  | cons c cs ih =>
    obtain ⟨here, later⟩ := List.forall_mem_cons.1 marks
    rw [List.cons_append, runsAfter, if_neg (by rw [here]; exact Bool.false_ne_true), ih later]
    simp

theorem runsAfter_marks {g : Text} (marks : ∀ c ∈ g, wordChar c = false) (before : Text) : runsAfter before g = [] := by
  have whole := runsAfter_marks_append marks before []
  rwa [List.append_nil, runsAfter] at whole

/-- Runs end where a text goes on with a mark, and what stands before those behind it is known. -/
theorem runsAfter_append_mark {c : Char} (h : wordChar c = false) (before s t : Text) :
    runsAfter before (s ++ c :: t) = runsAfter before s ++ runsAfter (c :: (s.reverse ++ before)) t := by
  fun_induction runsAfter before s with
  | case1 before => rw [List.nil_append, runsAfter, if_neg (by rw [h]; exact Bool.false_ne_true)]; rfl
  | case2 before d ds word run ih =>
    have passed : (ds.dropWhile wordChar).reverse ++ (run.reverse ++ before) = (d :: ds).reverse ++ before := by
      rw [← List.append_assoc, ← List.reverse_append]
      simp [run, List.takeWhile_append_dropWhile]
    rw [passed] at ih
    rw [List.cons_append, runsAfter, if_pos word, takeWhile_append_stop h, dropWhile_append_stop h]
    exact congrArg (_ :: ·) ih
  | case3 before d ds mark ih =>
    rw [List.cons_append, runsAfter, if_neg mark, ih]
    simp

/-- A word with marks behind it is one run. -/
theorem runsAfter_word {word g : Text} (filled : word ≠ []) (letters : ∀ c ∈ word, wordChar c = true)
    (marks : ∀ c ∈ g, wordChar c = false) (before : Text) : runsAfter before (word ++ g) = [⟨before, word⟩] := by
  obtain ⟨c, cs, rfl⟩ := List.exists_cons_of_ne_nil filled
  obtain ⟨first, later⟩ := List.forall_mem_cons.1 letters
  have stop : g.takeWhile wordChar = [] ∧ g.dropWhile wordChar = g := by
    cases g with
    | nil => exact ⟨rfl, rfl⟩
    | cons d ds =>
      have mark : ¬ wordChar d = true := by rw [marks d List.mem_cons_self]; exact Bool.false_ne_true
      exact ⟨List.takeWhile_cons_of_neg mark, List.dropWhile_cons_of_neg mark⟩
  rw [List.cons_append, runsAfter, if_pos first, List.takeWhile_append_of_pos later, List.dropWhile_append_of_pos later,
    stop.1, stop.2, List.append_nil]
  exact congrArg (_ :: ·) (runsAfter_marks marks _)

theorem runWords_nil : runWords [] = [] := by rw [runWords, runs, runsAfter]; rfl

theorem runWords_cons_mark {c : Char} (h : wordChar c = false) (t : Text) : runWords (c :: t) = runWords t := by
  rw [runWords, runs, runsAfter, if_neg (by rw [h]; exact Bool.false_ne_true), runsAfter_words]

theorem runWords_cons {c : Char} (h : wordChar c = true) (t : Text) :
    runWords (c :: t) = (c :: t.takeWhile wordChar) :: runWords (t.dropWhile wordChar) := by
  rw [runWords, runs, runsAfter, if_pos h, List.map_cons, runsAfter_words]

/-- A character that is no word character ends a run. -/
theorem runWords_append_mark {c : Char} (h : wordChar c = false) (s t : Text) :
    runWords (s ++ c :: t) = runWords s ++ runWords t := by
  rw [← runsAfter_words [], runsAfter_append_mark h, List.map_append, runsAfter_words, runsAfter_words]

theorem runWords_single {t : Text} (filled : t ≠ []) (h : ∀ c ∈ t, wordChar c = true) : runWords t = [t] := by
  have run := runsAfter_word filled h (List.forall_mem_nil _) []
  rw [List.append_nil] at run
  rw [← runsAfter_words [], run]
  rfl

theorem runWords_marks {t : Text} (h : ∀ c ∈ t, wordChar c = false) : runWords t = [] := by
  rw [← runsAfter_words [], runsAfter_marks h]
  rfl

/-- Words end where a text goes on with a mark. -/
theorem runWords_append_of_head {t : Text} (edge : ∀ c ∈ t.head?, wordChar c = false) (s : Text) :
    runWords (s ++ t) = runWords s ++ runWords t := by
  cases t with
  | nil => rw [List.append_nil, runWords_nil, List.append_nil]
  | cons c cs => rw [runWords_append_mark (edge c rfl), runWords_cons_mark (edge c rfl)]

/-- Words start where a text ends with a mark. -/
theorem runWords_append_of_last {s : Text} (edge : ∀ c ∈ s.getLast?, wordChar c = false) (t : Text) :
    runWords (s ++ t) = runWords s ++ runWords t := by
  rcases List.eq_nil_or_concat s with rfl | ⟨front, c, rfl⟩
  · rw [runWords_nil, List.nil_append, List.nil_append]
  · rw [List.concat_eq_append] at edge ⊢
    have mark : wordChar c = false := edge c (by rw [List.getLast?_concat]; rfl)
    rw [List.append_assoc, List.singleton_append, runWords_append_mark mark, runWords_append_mark mark, runWords_nil,
      List.append_nil]

/-- Parts that a mark joins keep their words. -/
theorem runWords_join {c : Char} (h : wordChar c = false) (parts : List Text) :
    runWords (join [c] parts) = parts.flatMap runWords := by
  induction parts with
  | nil => exact runWords_nil
  | cons part rest ih =>
    cases rest with
    | nil => simp [join, List.intercalate]
    | cons next rest =>
      rw [join_cons, List.singleton_append, runWords_append_mark h, ih]
      rfl

theorem runWords_dropWhile {p : Char → Bool} (h : ∀ c, p c = true → wordChar c = false) (t : Text) :
    runWords (t.dropWhile p) = runWords t := by
  have front : ∀ c ∈ t.takeWhile p, wordChar c = false := fun c hc => h c (List.mem_takeWhile_imp hc)
  conv => rhs; rw [← List.takeWhile_append_dropWhile (p := p) (l := t),
    runWords_append_of_last fun c hc => front c (List.mem_of_getLast? hc), runWords_marks front, List.nil_append]

theorem runWords_trim (t : Text) : runWords t.trim = runWords t := by
  have back : ∀ c ∈ takeEnd blank (t.dropWhile blank), wordChar c = false :=
    fun c hc => not_wordChar_of_blank (of_mem_takeEnd hc)
  have parts := dropEnd_append_takeEnd blank (t.dropWhile blank)
  rw [← runWords_dropWhile (fun _ => not_wordChar_of_blank) t, ← parts,
    runWords_append_of_head fun c hc => back c (List.mem_of_mem_head? hc), runWords_marks back, List.append_nil]
  rfl

/-! ## Texts without certain words -/

/-- the runs of word characters are none of these words -/
def Without (words : List Text) (t : Text) : Prop := ∀ word ∈ runWords t, word ∉ words

namespace Without

variable {words : List Text} {s t : Text}

theorem mono {words' : List Text} (h : Without words t) (sub : words' ⊆ words) : Without words' t :=
  fun word hw kept => h word hw (sub kept)

theorem append_mark {c : Char} (mark : wordChar c = false) (hs : Without words s) (ht : Without words t) :
    Without words (s ++ c :: t) := by
  rw [Without, runWords_append_mark mark]
  exact List.forall_mem_append.2 ⟨hs, ht⟩

theorem cons_mark {c : Char} (mark : wordChar c = false) (ht : Without words t) : Without words (c :: t) := by
  rw [Without, runWords_cons_mark mark]
  exact ht

theorem of_marks (h : ∀ c ∈ t, wordChar c = false) : Without words t := by
  rw [Without, runWords_marks h]
  exact fun _ hw => absurd hw List.not_mem_nil

theorem iff_hasWord : Without words t ↔ ∀ word ∈ words, hasWord word t = false := by
  simp only [Without, hasWord_eq, List.contains_eq_mem, decide_eq_false_iff_not]
  exact ⟨fun h word member hw => h word hw member, fun h word hw member => h word member hw⟩

theorem append_of_head (hs : Without words s) (ht : Without words t) (edge : ∀ c ∈ t.head?, wordChar c = false) :
    Without words (s ++ t) := by
  rw [Without, runWords_append_of_head edge]
  exact List.forall_mem_append.2 ⟨hs, ht⟩

theorem append_of_last (hs : Without words s) (ht : Without words t) (edge : ∀ c ∈ s.getLast?, wordChar c = false) :
    Without words (s ++ t) := by
  rw [Without, runWords_append_of_last edge]
  exact List.forall_mem_append.2 ⟨hs, ht⟩

/-- Marks in front of a text add no word to it. -/
theorem marks_append (h : ∀ c ∈ s, wordChar c = false) (ht : Without words t) : Without words (s ++ t) :=
  (of_marks h).append_of_last ht fun c hc => h c (List.mem_of_getLast? hc)

theorem append_marks (hs : Without words s) (h : ∀ c ∈ t, wordChar c = false) : Without words (s ++ t) :=
  hs.append_of_head (of_marks h) fun c hc => h c (List.mem_of_head? hc)

/-- A text from which the rest of a word is dropped has no more words. -/
theorem dropWhile (h : Without words t) : Without words (t.dropWhile wordChar) := by
  cases t with
  | nil => exact h
  | cons c cs =>
    by_cases word : wordChar c = true
    · rw [Without, runWords_cons word] at h
      rw [List.dropWhile_cons_of_pos word]
      exact fun w hw => h w (List.mem_cons_of_mem _ hw)
    · rwa [List.dropWhile_cons_of_neg word]

/-- What is a word has no word of a list that lacks it. -/
theorem single (filled : t ≠ []) (h : ∀ c ∈ t, wordChar c = true) (other : t ∉ words) : Without words t := by
  rw [Without, runWords_single filled h, List.forall_mem_singleton]
  exact other

theorem find?_runs (h : Without words s) {word : Text} (listed : word ∈ words) (before : Text) :
    (runsAfter before s).find? (·.word == word) = none := by
  rw [List.find?_eq_none]
  intro run member same
  refine h run.word ?_ (beq_iff_eq.1 same ▸ listed)
  rw [← runsAfter_words before]
  exact List.mem_map_of_mem member

/-- Nothing is cut off a text without the word. -/
theorem beforeWord {word s : Text} (h : Without [word] s) : beforeWord word s = s := by
  rw [Text.beforeWord, runs, h.find?_runs List.mem_cons_self]

end Without

/-- A text is cut where the word first stands between marks. -/
theorem beforeWord_found {word s rest : Text} {c d : Char} (h : Without [word] s) (mark : wordChar c = false)
    (start : word ≠ []) (letters : ∀ x ∈ word, wordChar x = true) (ends : wordChar d = false) :
    beforeWord word (s ++ c :: (word ++ d :: rest)) = s ++ [c] := by
  obtain ⟨x, xs, rfl⟩ := List.exists_cons_of_ne_nil start
  obtain ⟨first, others⟩ := List.forall_mem_cons.1 letters
  have taken : (xs ++ d :: rest).takeWhile wordChar = xs := by
    rw [takeWhile_append_stop ends, List.takeWhile_eq_self_iff.2 others]
  rw [beforeWord, runs, runsAfter_append_mark mark, List.find?_append, h.find?_runs List.mem_cons_self, Option.none_or,
    List.cons_append, runsAfter, if_pos first, taken]
  simp

/-! ## Stretches without a character -/

section
variable {s a b : Text} {c : Char}

theorem prefix_append_cons_iff (h : c ∉ s) : s <+: a ++ c :: b ↔ s <+: a := by
  refine ⟨fun front => ?_, fun front => front.trans (List.prefix_append a (c :: b))⟩
  rcases List.prefix_or_prefix_of_prefix front (List.prefix_append a (c :: b)) with inside | ⟨more, rfl⟩
  · exact inside
  · cases more with
    | nil => rw [List.append_nil]
    | cons d ds =>
      rw [List.prefix_append_right_inj, List.cons_prefix_cons] at front
      exact absurd (by simp [front.1]) h

/-- A stretch without a character stands in front of a place where it is, or behind. -/
theorem infix_append_cons_iff (h : c ∉ s) : s <:+: a ++ c :: b ↔ s <:+: a ∨ s <:+: b := by
  induction a with
  | nil =>
    rw [List.nil_append, List.infix_cons_iff, ← List.nil_append (c :: b), prefix_append_cons_iff h, List.infix_nil,
      List.prefix_nil]
  | cons d ds ih =>
    rw [List.cons_append, List.infix_cons_iff, List.infix_cons_iff, ih, ← List.cons_append, prefix_append_cons_iff h,
      or_assoc]

/-- A stretch does not start in a text without its first character. -/
theorem cons_infix_append_iff (h : c ∉ a) : c :: s <:+: a ++ b ↔ c :: s <:+: b := by
  induction a with
  | nil => rfl
  | cons d ds ih =>
    rw [List.mem_cons, not_or] at h
    rw [List.cons_append, List.infix_cons_iff, ih h.2, List.cons_prefix_cons]
    exact or_iff_right fun front => h.1 front.1

/-- A text up to a character goes past a front without this character. -/
theorem prefix_behind (h : c ∉ a) (front : s ++ [c] <+: a ++ b) : ∃ s', s = a ++ s' ∧ s' ++ [c] <+: b := by
  rcases List.prefix_or_prefix_of_prefix front (List.prefix_append a b) with inside | ⟨more, whole⟩
  · exact absurd (inside.subset (by simp)) h
  · rcases List.eq_nil_or_concat more with rfl | ⟨s', d, rfl⟩
    · rw [List.append_nil] at whole
      exact absurd (by simp [whole]) h
    · rw [List.concat_eq_append, ← List.append_assoc] at whole
      obtain ⟨rfl, same⟩ := List.append_inj' whole rfl
      rw [← same, List.append_assoc, List.prefix_append_right_inj] at front
      exact ⟨s', rfl, same ▸ front⟩

/-- What a stretch lacks may be cut off in front of it. -/
theorem infix_append_right_iff (apart : ∀ c ∈ a, c ∉ s) : s <:+: a ++ b ↔ s <:+: b := by
  induction a with
  | nil => rfl
  | cons c cs ih =>
    obtain ⟨first, others⟩ := List.forall_mem_cons.1 apart
    have none : s <:+: [] → s <:+: cs ++ b := fun empty => by rw [List.infix_nil.1 empty]; exact List.nil_infix
    rw [List.cons_append, ← ih others, ← List.nil_append (c :: (cs ++ b)), infix_append_cons_iff first]
    exact or_iff_right_of_imp none

/-- What a stretch lacks may be cut off behind it. -/
theorem infix_append_left_iff (apart : ∀ c ∈ b, c ∉ s) : s <:+: a ++ b ↔ s <:+: a := by
  induction b generalizing a with
  | nil => rw [List.append_nil]
  | cons c cs ih =>
    obtain ⟨first, others⟩ := List.forall_mem_cons.1 apart
    have none : s <:+: cs → s <:+: a := fun tail => by
      rw [← List.nil_append cs, ih others, List.infix_nil] at tail
      rw [tail]
      exact List.nil_infix
    rw [infix_append_cons_iff first]
    exact or_iff_left_of_imp none

theorem infix_dropWhile_iff {p : Char → Bool} (apart : ∀ c ∈ s, p c = false) (t : Text) :
    s <:+: t.dropWhile p ↔ s <:+: t := by
  have front : ∀ c ∈ t.takeWhile p, c ∉ s := fun c hc member => by
    have kind : p c = true := List.mem_takeWhile_imp hc
    rw [apart c member] at kind
    cases kind
  conv => rhs; rw [← List.takeWhile_append_dropWhile (p := p) (l := t)]
  rw [infix_append_right_iff front]

theorem infix_dropEnd_iff {p : Char → Bool} (apart : ∀ c ∈ s, p c = false) (t : Text) :
    s <:+: dropEnd p t ↔ s <:+: t := by
  have back : ∀ c ∈ takeEnd p t, c ∉ s := fun c hc member => by
    have kind : p c = true := of_mem_takeEnd hc
    rw [apart c member] at kind
    cases kind
  conv => rhs; rw [← dropEnd_append_takeEnd p t]
  rw [infix_append_left_iff back]

theorem infix_stripBoth_iff {p : Char → Bool} (apart : ∀ c ∈ s, p c = false) (t : Text) :
    s <:+: stripBoth p t ↔ s <:+: t := by
  rw [stripBoth, infix_dropEnd_iff apart, infix_dropWhile_iff apart]

theorem infix_trim_iff (solid : ∀ c ∈ s, blank c = false) (t : Text) : s <:+: trim t ↔ s <:+: t := by
  rw [trim, trimRight, trimLeft, infix_dropEnd_iff solid, infix_dropWhile_iff solid]

/-- A stretch without the separator stands in one of the parts. -/
theorem infix_join_iff (h : c ∉ s) {parts : List Text} (inhabited : parts ≠ []) :
    s <:+: join [c] parts ↔ ∃ part ∈ parts, s <:+: part := by
  induction parts with
  | nil => exact absurd rfl inhabited
  | cons part rest ih =>
    cases rest with
    | nil => simp [join]
    | cons next rest =>
      rw [join_cons, List.singleton_append, infix_append_cons_iff h, ih (List.cons_ne_nil next rest)]
      exact (List.exists_mem_cons_iff (s <:+: ·) part (next :: rest)).symm

end

end Text

end EndpointSurvey
