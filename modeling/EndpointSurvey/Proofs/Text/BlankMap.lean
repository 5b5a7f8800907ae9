/-
Changing the kind of blanks in a text. The maps considered leave every character alone, or put spaces for line feeds;
what is cut from a text by blanks, words and marks is cut at the same places from its image.

Main statements: `words_map` and `collapse_map` (words do not see the kind of blanks), `trim_map` and `splitFirst?_map`.
-/
import EndpointSurvey.Text.WordRun
import EndpointSurvey.Text.Blank
import Mathlib.Data.List.TakeWhile

namespace EndpointSurvey

/-- a map of characters that leaves all but the line feed alone, which it keeps or makes a space -/
structure BlankMap (φ : Char → Char) : Prop where
  fixes : ∀ c, c ≠ '\n' → φ c = c
  feed : φ '\n' = '\n' ∨ φ '\n' = ' '

/-- spaces for line feeds -/
def flat (c : Char) : Char := if c = '\n' then ' ' else c

theorem blankMap_id : BlankMap id := ⟨fun _ _ => rfl, Or.inl rfl⟩

theorem blankMap_flat : BlankMap flat := ⟨fun _ h => if_neg h, Or.inr rfl⟩

namespace BlankMap

variable {φ : Char → Char}

/-- A test that does not tell spaces from line feeds does not see the map. -/
theorem test (h : BlankMap φ) {p : Char → Bool} (same : p '\n' = p ' ') (c : Char) : p (φ c) = p c := by
  by_cases feed : c = '\n'
  · subst feed
    rcases h.feed with e | e
    · rw [e]
    · rw [e, same]
  · rw [h.fixes c feed]

theorem eq_iff (h : BlankMap φ) {d : Char} (feed : d ≠ '\n') (space : d ≠ ' ') (c : Char) : φ c = d ↔ c = d := by
  by_cases e : c = '\n'
  · subst e
    rcases h.feed with e | e
    · rw [e]
    · rw [e]
      exact ⟨fun e => absurd e.symm space, fun e => absurd e.symm feed⟩
  · rw [h.fixes c e]

/-- a text without line feeds is its own image -/
theorem map_eq_self (h : BlankMap φ) {t : Text} (line : '\n' ∉ t) : t.map φ = t := by
  induction t with
  | nil => rfl
  | cons c cs ih =>
    rw [List.mem_cons, not_or] at line
    rw [List.map_cons, ih line.2, h.fixes c (Ne.symm line.1)]

theorem comp_test (h : BlankMap φ) {p : Char → Bool} (same : p '\n' = p ' ') : p ∘ φ = p :=
  funext fun c => h.test same c

theorem takeWhile_map (h : BlankMap φ) {p : Char → Bool} (same : p '\n' = p ' ') (t : Text) :
    (t.map φ).takeWhile p = (t.takeWhile p).map φ := by
  rw [List.takeWhile_map, h.comp_test same]

theorem dropWhile_map (h : BlankMap φ) {p : Char → Bool} (same : p '\n' = p ' ') (t : Text) :
    (t.map φ).dropWhile p = (t.dropWhile p).map φ := by
  rw [List.dropWhile_map, h.comp_test same]

theorem takeEnd_map (h : BlankMap φ) {p : Char → Bool} (same : p '\n' = p ' ') (t : Text) :
    Text.takeEnd p (t.map φ) = (Text.takeEnd p t).map φ := by
  unfold Text.takeEnd
  rw [← List.map_reverse, h.takeWhile_map same, List.map_reverse]

theorem dropEnd_map (h : BlankMap φ) {p : Char → Bool} (same : p '\n' = p ' ') (t : Text) :
    Text.dropEnd p (t.map φ) = (Text.dropEnd p t).map φ := by
  unfold Text.dropEnd
  rw [← List.map_reverse, h.dropWhile_map same, List.map_reverse]

theorem head?_any_map (h : BlankMap φ) {p : Char → Bool} (same : p '\n' = p ' ') (t : Text) :
    (t.map φ).head?.any p = t.head?.any p := by
  cases t with
  | nil => rfl
  | cons c cs => exact h.test same c

theorem head?_map_eq_some (h : BlankMap φ) {d : Char} (feed : d ≠ '\n') (space : d ≠ ' ') (t : Text) :
    (t.map φ).head? = some d ↔ t.head? = some d := by
  cases t with
  | nil => simp
  | cons c cs =>
    rw [List.map_cons, List.head?_cons, List.head?_cons, Option.some.injEq, Option.some.injEq]
    exact h.eq_iff feed space c

theorem getLast?_map_eq_some (h : BlankMap φ) {d : Char} (feed : d ≠ '\n') (space : d ≠ ' ') (t : Text) :
    (t.map φ).getLast? = some d ↔ t.getLast? = some d := by
  rw [List.getLast?_map]
  cases t.getLast? with
  | none => simp
  | some c =>
    rw [Option.map_some, Option.some.injEq, Option.some.injEq]
    exact h.eq_iff feed space c

theorem mem_map_iff (h : BlankMap φ) {d : Char} (feed : d ≠ '\n') (space : d ≠ ' ') (t : Text) :
    d ∈ t.map φ ↔ d ∈ t := by
  rw [List.mem_map]
  constructor
  · rintro ⟨c, hc, e⟩
    rw [h.eq_iff feed space] at e
    exact e ▸ hc
  · intro hd
    exact ⟨d, hd, h.fixes d feed⟩

theorem contains_map (h : BlankMap φ) {d : Char} (feed : d ≠ '\n') (space : d ≠ ' ') (t : Text) :
    List.contains (t.map φ) d = List.contains t d := by
  rw [Bool.eq_iff_iff, List.contains_iff_mem, List.contains_iff_mem]
  exact h.mem_map_iff feed space t

/-- characters that all pass a test which line feeds do not pass are left alone -/
theorem map_of_all (h : BlankMap φ) {p : Char → Bool} (feed : p '\n' = false) {t : Text} (all : ∀ c ∈ t, p c = true) :
    t.map φ = t := by
  apply h.map_eq_self
  intro hn
  rw [all _ hn] at feed
  cases feed

/-! ## Blanks and words -/

theorem leadingBlanks_map (h : BlankMap φ) (t : Text) : Text.leadingBlanks (t.map φ) = Text.leadingBlanks t := by
  unfold Text.leadingBlanks
  rw [h.takeWhile_map (by decide), List.length_map]

theorem trimLeft_map (h : BlankMap φ) (t : Text) : Text.trimLeft (t.map φ) = (Text.trimLeft t).map φ :=
  h.dropWhile_map (by decide) t

theorem trimRight_map (h : BlankMap φ) (t : Text) : Text.trimRight (t.map φ) = (Text.trimRight t).map φ :=
  h.dropEnd_map (by decide) t

theorem trim_map (h : BlankMap φ) (t : Text) : Text.trim (t.map φ) = (Text.trim t).map φ := by
  unfold Text.trim
  rw [h.trimLeft_map, h.trimRight_map]

/-- The words of a text do not see the kind of blanks. -/
theorem words_map (h : BlankMap φ) (t : Text) : Text.words (t.map φ) = Text.words t := by
  fun_induction Text.words t with
  | case1 => rw [List.map_nil, Text.words]
  | case2 c cs b ih =>
    rw [List.map_cons, Text.words, if_pos (by rwa [h.test (p := blank) (by decide)]), ih]
  | case3 c cs b ih =>
    have visible : c ≠ '\n' := by
      rintro rfl
      exact b (by decide)
    have word : (cs.takeWhile (!blank ·)).map φ = cs.takeWhile (!blank ·) :=
      h.map_of_all (p := (!blank ·)) (by decide) fun d hd => List.mem_takeWhile_imp (p := (!blank ·)) hd
    rw [List.map_cons, Text.words, if_neg (by rwa [h.test (p := blank) (by decide)]), h.takeWhile_map (by decide),
      h.dropWhile_map (by decide), ih, word, h.fixes c visible]

theorem collapse_map (h : BlankMap φ) (t : Text) : Text.collapse (t.map φ) = Text.collapse t := by
  unfold Text.collapse
  rw [h.words_map]

/-! ## Pieces -/

theorem splitOn_map (h : BlankMap φ) {sep : Char} (feed : sep ≠ '\n') (space : sep ≠ ' ') (t : Text) :
    Text.splitOn sep (t.map φ) = (Text.splitOn sep t).map (List.map φ) := by
  induction t with
  | nil => rfl
  | cons c cs ih =>
    rw [List.map_cons, Text.splitOn, Text.splitOn, ih]
    by_cases e : c = sep
    · rw [if_pos e, if_pos ((h.eq_iff feed space c).2 e)]
      rfl
    · rw [if_neg e, if_neg fun e' => e ((h.eq_iff feed space c).1 e')]
      cases Text.splitOn sep cs <;> rfl

theorem after?_map (h : BlankMap φ) {piece : Text} (feed : '\n' ∉ piece) (space : ' ' ∉ piece) (t : Text) :
    Text.after? piece (t.map φ) = (Text.after? piece t).map (List.map φ) := by
  induction piece generalizing t with
  | nil => rfl
  | cons c cs ih =>
    rw [List.mem_cons, not_or] at feed space
    cases t with
    | nil => rfl
    | cons d ds =>
      rw [List.map_cons, Text.after?, Text.after?, ih feed.2 space.2]
      have same : c = φ d ↔ c = d := by
        rw [eq_comm, h.eq_iff (Ne.symm feed.1) (Ne.symm space.1), eq_comm]
      by_cases e : c = d
      · rw [if_pos e, if_pos (same.2 e)]
      · rw [if_neg e, if_neg fun e' => e (same.1 e')]
        rfl

theorem splitFirst?_map (h : BlankMap φ) {piece : Text} (feed : '\n' ∉ piece) (space : ' ' ∉ piece) (t : Text) :
    Text.splitFirst? piece (t.map φ) =
      (Text.splitFirst? piece t).map fun (before, rest) => (before.map φ, rest.map φ) := by
  induction t with
  | nil =>
    rw [List.map_nil, Text.splitFirst?]
    split <;> rfl
  | cons c cs ih =>
    rw [List.map_cons, Text.splitFirst?, Text.splitFirst?, ← List.map_cons, h.after?_map feed space, ih]
    cases Text.after? piece (c :: cs) with
    | some rest => rfl
    | none => cases Text.splitFirst? piece cs <;> rfl

/-! ## Runs of word characters -/

theorem runsAfter_map (h : BlankMap φ) (before t : Text) :
    Text.runsAfter (before.map φ) (t.map φ) =
      (Text.runsAfter before t).map fun run => ⟨run.before.map φ, run.word⟩ := by
  fun_induction Text.runsAfter before t with
  | case1 before => rw [List.map_nil, Text.runsAfter]; rfl
  | case2 before c cs w run ih =>
    have visible : c ≠ '\n' := by
      rintro rfl
      exact absurd w (by decide)
    have word : (cs.takeWhile wordChar).map φ = cs.takeWhile wordChar :=
      h.map_of_all (p := wordChar) (by decide) fun d hd => List.mem_takeWhile_imp hd
    have rest : run.reverse ++ before.map φ = (run.reverse ++ before).map φ := by
      rw [List.map_append, List.map_reverse]
      simp only [run, List.map_cons, word, h.fixes c visible]
    rw [List.map_cons, Text.runsAfter, if_pos (by rwa [h.test (p := wordChar) (by decide)]),
      h.takeWhile_map (by decide),
      h.dropWhile_map (by decide), word, h.fixes c visible, List.map_cons]
    simp only
    rw [← ih, ← rest]
  | case3 before c cs w ih =>
    rw [List.map_cons, Text.runsAfter, if_neg (by rwa [h.test (p := wordChar) (by decide)]), ← ih]
    rfl

theorem runs_map (h : BlankMap φ) (t : Text) :
    Text.runs (t.map φ) = (Text.runs t).map fun run => ⟨run.before.map φ, run.word⟩ := h.runsAfter_map [] t

theorem hasWord_map (h : BlankMap φ) (word t : Text) : Text.hasWord word (t.map φ) = Text.hasWord word t := by
  unfold Text.hasWord
  rw [h.runs_map, List.any_map]
  rfl

theorem beforeWord_map (h : BlankMap φ) (word t : Text) :
    Text.beforeWord word (t.map φ) = (Text.beforeWord word t).map φ := by
  unfold Text.beforeWord
  rw [h.runs_map, List.find?_map]
  have same : ((fun run : Text.WordRun => run.word == word) ∘ fun run => ⟨run.before.map φ, run.word⟩) =
      fun run : Text.WordRun => run.word == word := rfl
  rw [same]
  cases (Text.runs t).find? fun run => run.word == word with
  | none => rfl
  | some run => exact (List.map_reverse).symm

end BlankMap

end EndpointSurvey
