/-
Runs of blanks made one space each, the ends included. Words are left as they are, so that a text settles to its words
with single spaces between them, and maybe one behind.

Main statements: `settle_append` (a text settles part by part), `settle_true_eq` (what a text settles to behind a blank),
`collapse_eq_self_iff` (which texts are collapsed already) and `runWords_collapse` (words stay as they are).
-/
import EndpointSurvey.Proofs.Text.Spacing

namespace EndpointSurvey.Text

/-- every run of blanks made one space; `afterBlank` says that a blank has just been passed -/
def settle (afterBlank : Bool) : Text → Text
  | [] => []
  | c :: cs =>
    if blank c then if afterBlank then settle true cs else ' ' :: settle true cs
    else c :: settle false cs

variable {afterBlank : Bool}

@[simp] theorem settle_nil : settle afterBlank [] = [] := rfl

theorem settle_solid {c : Char} (h : blank c = false) (afterBlank : Bool) (t : Text) :
    settle afterBlank (c :: t) = c :: settle false t := by
  rw [settle, if_neg (by rw [h]; exact Bool.false_ne_true)]

theorem settle_blank {c : Char} (h : blank c = true) (t : Text) :
    settle false (c :: t) = ' ' :: settle true t ∧ settle true (c :: t) = settle true t := by
  constructor
  · rw [settle, if_pos h, if_neg Bool.false_ne_true]
  · rw [settle, if_pos h, if_pos rfl]

/-- has a blank just been passed behind a text? -/
def endsBlank (afterBlank : Bool) (t : Text) : Bool := (t.getLast?.map blank).getD afterBlank

/-- A text settles part by part. -/
theorem settle_append (afterBlank : Bool) (s t : Text) :
    settle afterBlank (s ++ t) = settle afterBlank s ++ settle (endsBlank afterBlank s) t := by
  induction s generalizing afterBlank with
  | nil => rfl
  | cons c cs ih =>
    have ends : endsBlank afterBlank (c :: cs) = endsBlank (blank c) cs := by
      cases cs with
      | nil => rfl
      | cons d ds => rw [endsBlank, List.getLast?_cons_cons, endsBlank, List.getLast?_cons]; rfl
    rw [ends, List.cons_append]
    cases h : blank c with
    | false => rw [settle_solid h, settle_solid h, ih, List.cons_append]
    | true =>
      cases afterBlank with
      | false => rw [(settle_blank h _).1, (settle_blank h _).1, ih, List.cons_append]
      | true => rw [(settle_blank h _).2, (settle_blank h _).2, ih]

/-- Text that does not end in a blank settles on its own. -/
theorem settle_append_solid {s : Text} (filled : s ≠ []) (h : ∀ c ∈ s.getLast?, blank c = false) (afterBlank : Bool)
    (t : Text) : settle afterBlank (s ++ t) = settle afterBlank s ++ settle false t := by
  rw [settle_append, endsBlank, List.getLast?_eq_some_getLast filled, Option.map_some, Option.getD_some,
    h _ (List.getLast?_eq_some_getLast filled)]

/-- Text without blanks settles as it is. -/
theorem settle_eq_self {t : Text} (h : ∀ c ∈ t, blank c = false) (afterBlank : Bool) : settle afterBlank t = t := by
  induction t generalizing afterBlank with
  | nil => rfl
  | cons c cs ih => rw [settle_solid (h c List.mem_cons_self), ih fun d hd => h d (List.mem_cons_of_mem c hd)]

/-- A run of blanks settles to a space, or to nothing behind a blank. -/
theorem settle_blanks {g : Text} (filled : g ≠ []) (h : ∀ c ∈ g, blank c = true) (t : Text) :
    settle false (g ++ t) = ' ' :: settle true t ∧ settle true (g ++ t) = settle true t := by
  have passed : ∀ g : Text, (∀ c ∈ g, blank c = true) → settle true (g ++ t) = settle true t := by
    intro g h
    induction g with
    | nil => rfl
    | cons c cs ih =>
      rw [List.cons_append, (settle_blank (h c List.mem_cons_self) _).2, ih fun d hd => h d (List.mem_cons_of_mem c hd)]
  obtain ⟨c, cs, rfl⟩ := List.exists_cons_of_ne_nil filled
  refine ⟨?_, passed _ h⟩
  rw [List.cons_append, (settle_blank (h c List.mem_cons_self) _).1,
    passed cs fun d hd => h d (List.mem_cons_of_mem c hd)]

theorem mem_settle {c : Char} {t : Text} (h : c ∈ settle afterBlank t) : c = ' ' ∨ c ∈ t := by
  induction t generalizing afterBlank with
  | nil => cases h
  | cons d ds ih =>
    cases hd : blank d with
    | false =>
      rw [settle_solid hd, List.mem_cons] at h
      rcases h with rfl | h
      · exact .inr List.mem_cons_self
      · exact (ih h).imp_right (List.mem_cons_of_mem d)
    | true =>
      cases afterBlank with
      | false =>
        rw [(settle_blank hd ds).1, List.mem_cons] at h
        rcases h with rfl | h
        · exact .inl rfl
        · exact (ih h).imp_right (List.mem_cons_of_mem d)
      | true =>
        rw [(settle_blank hd ds).2] at h
        exact (ih h).imp_right (List.mem_cons_of_mem d)

/-- What a settled text begins with up to a blank, the text begins with. -/
theorem prefix_of_settle {p t : Text} (solid : ∀ c ∈ p, blank c = false) (h : p <+: settle false t) : p <+: t := by
  induction p generalizing t with
  | nil => exact List.nil_prefix
  | cons c cs ih =>
    cases t with
    | nil => simp at h
    | cons d ds =>
      cases hd : blank d with
      | false =>
        rw [settle_solid hd, List.cons_prefix_cons] at h
        exact List.cons_prefix_cons.2 ⟨h.1, ih (fun e he => solid e (List.mem_cons_of_mem c he)) h.2⟩
      | true =>
        rw [(settle_blank hd ds).1, List.cons_prefix_cons] at h
        have space := solid c List.mem_cons_self
        rw [h.1] at space
        cases space

/-! ## Words -/

theorem takeWhile_settle (t : Text) : (settle false t).takeWhile (!blank ·) = t.takeWhile (!blank ·) := by
  induction t with
  | nil => rfl
  | cons c cs ih =>
    cases h : blank c with
    | false =>
      rw [settle_solid h, List.takeWhile_cons_of_pos (by rw [h]; rfl), List.takeWhile_cons_of_pos (by rw [h]; rfl), ih]
    | true =>
      rw [(settle_blank h cs).1, List.takeWhile_cons_of_neg (by decide), List.takeWhile_cons_of_neg (by simp [h])]

theorem dropWhile_settle (t : Text) :
    (settle false t).dropWhile (!blank ·) = settle false (t.dropWhile (!blank ·)) := by
  induction t with
  | nil => rfl
  | cons c cs ih =>
    cases h : blank c with
    | false =>
      rw [settle_solid h, List.dropWhile_cons_of_pos (by rw [h]; rfl), List.dropWhile_cons_of_pos (by rw [h]; rfl), ih]
    | true =>
      rw [List.dropWhile_cons_of_neg (l := cs) (by simp [h]), (settle_blank h cs).1,
        List.dropWhile_cons_of_neg (by decide)]

theorem words_settle (afterBlank : Bool) (t : Text) : words (settle afterBlank t) = words t := by
  fun_induction words t generalizing afterBlank with
  | case1 => rw [settle_nil, words]
  | case2 c cs h ih =>
    cases afterBlank with
    | false => rw [(settle_blank h cs).1, words_cons_blank (by decide), ih]
    | true => rw [(settle_blank h cs).2, ih]
  | case3 c cs h ih =>
    have solid : blank c = false := by simpa using h
    rw [settle_solid solid, words_cons solid, takeWhile_settle, dropWhile_settle, ih]

theorem collapse_settle (afterBlank : Bool) (t : Text) : collapse (settle afterBlank t) = collapse t := by
  rw [collapse, words_settle, collapse]

/-- A settled text has single spaces, and maybe one behind. -/
theorem spaced_settle (afterBlank : Bool) (t : Text) : ∃ u gap, settle afterBlank t = u ++ gap ∧
    (gap = [] ∨ gap = [' ']) ∧ (u = [] ∧ (afterBlank = true → gap = []) ∨ spaced afterBlank u = true) := by
  induction t generalizing afterBlank with
  | nil => exact ⟨[], [], rfl, .inl rfl, .inl ⟨rfl, fun _ => rfl⟩⟩
  | cons c cs ih =>
    cases h : blank c with
    | false =>
      obtain ⟨u, gap, e, one, shape⟩ := ih false
      refine ⟨c :: u, gap, by rw [settle_solid h, e]; rfl, one, .inr ?_⟩
      rw [spaced, if_neg (by rw [h]; exact Bool.false_ne_true)]
      rcases shape with ⟨rfl, -⟩ | good
      · rfl
      · exact good
    | true =>
      obtain ⟨u, gap, e, one, shape⟩ := ih true
      cases afterBlank with
      | true => exact ⟨u, gap, by rw [(settle_blank h cs).2, e], one, shape⟩
      | false =>
        rcases shape with ⟨rfl, none⟩ | good
        · refine ⟨[], [' '], ?_, .inr rfl, .inl ⟨rfl, by simp⟩⟩
          rw [(settle_blank h cs).1, e, none rfl]
          rfl
        · refine ⟨' ' :: u, gap, by rw [(settle_blank h cs).1, e]; rfl, one, .inr ?_⟩
          rw [spaced, if_pos (by decide), good]
          rfl

theorem blanks_of_gap {gap : Text} (one : gap = [] ∨ gap = [' ']) : ∀ c ∈ gap, blank c = true := by
  rcases one with rfl | rfl
  · simp
  · exact forall_of_all (by decide)

/-- Behind a blank a text settles to its words with single spaces between them, and maybe one behind. -/
theorem settle_true_eq (t : Text) : ∃ gap, (gap = [] ∨ gap = [' ']) ∧ settle true t = collapse t ++ gap ∧
    (collapse t = [] ∨ spaced true (collapse t) = true) := by
  obtain ⟨u, gap, e, one, shape⟩ := spaced_settle true t
  have whole : collapse t = collapse u := by
    rw [← collapse_settle true t, e, collapse, words_append_blanks (blanks_of_gap one), collapse]
  have same : collapse u = u ∧ (u = [] ∨ spaced true u = true) := by
    rcases shape with ⟨rfl, -⟩ | good
    · exact ⟨by rw [collapse, words]; rfl, .inl rfl⟩
    · exact ⟨collapse_spaced good, .inr good⟩
  rw [whole, same.1]
  exact ⟨gap, one, e, same.2⟩

/-- A text is collapsed already if its words stand one space apart. -/
theorem collapse_eq_self_iff {t : Text} : collapse t = t ↔ t = [] ∨ spaced true t = true := by
  constructor
  · intro same
    obtain ⟨-, -, -, shape⟩ := settle_true_eq t
    rwa [same] at shape
  · rintro (rfl | good)
    · rw [collapse, words]
      rfl
    · exact collapse_spaced good

/-- A settled text without blanks at its ends is collapsed. -/
theorem trim_settle (afterBlank : Bool) (t : Text) : trim (settle afterBlank t) = collapse t := by
  have behind : ∀ pad : Text, (∀ c ∈ pad, blank c = true) → ∀ t, trim (pad ++ settle true t) = collapse t := by
    intro pad blanks t
    obtain ⟨gap, one, e, shape⟩ := settle_true_eq t
    have gaps := blanks_of_gap one
    rw [e]
    rcases shape with empty | spaced
    · rw [empty]
      exact trim_padded blanks gaps (by simp) (by simp)
    · refine trim_padded blanks gaps (fun c first => ?_) (spaced_last spaced)
      obtain ⟨cs, e⟩ := List.head?_eq_some_iff.1 first
      rw [e, Text.spaced] at spaced
      cases visible : blank c with
      | false => rfl
      | true => simp [visible] at spaced
  cases t with
  | nil => rw [settle_nil, collapse, words]; rfl
  | cons c cs =>
    cases h : blank c with
    | false =>
      rw [settle_solid h, ← settle_solid h true]
      exact behind [] (by simp) (c :: cs)
    | true =>
      rw [show collapse (c :: cs) = collapse cs by rw [collapse, words_cons_blank h, collapse]]
      cases afterBlank with
      | false =>
        rw [(settle_blank h cs).1]
        exact behind [' '] (forall_of_all (by decide)) cs
      | true =>
        rw [(settle_blank h cs).2]
        exact behind [] (by simp) cs

theorem collapse_collapse (t : Text) : collapse (collapse t) = collapse t := by
  obtain ⟨-, -, -, shape⟩ := settle_true_eq t
  exact collapse_eq_self_iff.2 shape

theorem getLast?_settle {t : Text} (last : ∀ c ∈ t.getLast?, blank c = false) (afterBlank : Bool) :
    (settle afterBlank t).getLast? = t.getLast? := by
  rcases List.eq_nil_or_concat t with rfl | ⟨front, c, rfl⟩
  · rfl
  · rw [List.concat_eq_append] at last ⊢
    have solid : blank c = false := last c (by rw [List.getLast?_concat]; rfl)
    rw [settle_append, settle_solid solid, settle_nil, List.getLast?_concat, List.getLast?_concat]

/-- A text with solid ends settles to its words with single spaces between them. -/
theorem settle_eq_collapse {t : Text} (first : ∀ c ∈ t.head?, blank c = false)
    (last : ∀ c ∈ t.getLast?, blank c = false) (afterBlank : Bool) : settle afterBlank t = collapse t := by
  cases t with
  | nil => rw [collapse, words]; rfl
  | cons c cs =>
    have start : settle afterBlank (c :: cs) = settle true (c :: cs) := by
      rw [settle_solid (first c rfl), settle_solid (first c rfl)]
    obtain ⟨gap, rfl | rfl, e, -⟩ := settle_true_eq (c :: cs)
    · rw [start, e, List.append_nil]
    · have ends := getLast?_settle last true
      rw [e, List.getLast?_concat] at ends
      cases last ' ' ends.symm

/-! ## Words and characters of a collapsed text -/

theorem words_collapse (t : Text) : words (collapse t) = words t := by
  obtain ⟨gap, one, e, -⟩ := settle_true_eq t
  rw [← words_settle true t, e, words_append_blanks (blanks_of_gap one)]

theorem mem_collapse {c : Char} {t : Text} (h : c ∈ collapse t) : c = ' ' ∨ c ∈ t := by
  obtain ⟨gap, -, e, -⟩ := settle_true_eq t
  have settled : c ∈ settle true t := e ▸ List.mem_append_left gap h
  exact mem_settle settled

theorem takeWhile_wordChar_settle (t : Text) : (settle false t).takeWhile wordChar = t.takeWhile wordChar := by
  induction t with
  | nil => rfl
  | cons c cs ih =>
    cases h : blank c with
    | true =>
      have mark : ¬ wordChar c = true := by rw [not_wordChar_of_blank h]; exact Bool.false_ne_true
      rw [(settle_blank h cs).1, List.takeWhile_cons_of_neg mark, List.takeWhile_cons_of_neg (by decide)]
    | false => rw [settle_solid h, List.takeWhile_cons, List.takeWhile_cons, ih]

theorem dropWhile_wordChar_settle (t : Text) :
    (settle false t).dropWhile wordChar = settle false (t.dropWhile wordChar) := by
  induction t with
  | nil => rfl
  | cons c cs ih =>
    cases h : blank c with
    | true =>
      have mark : ¬ wordChar c = true := by rw [not_wordChar_of_blank h]; exact Bool.false_ne_true
      rw [List.dropWhile_cons_of_neg mark, (settle_blank h cs).1, List.dropWhile_cons_of_neg (by decide)]
    | false =>
      rw [settle_solid h, List.dropWhile_cons, List.dropWhile_cons, ih]
      split
      · rfl
      · rw [settle_solid h]

/-- A settled text has the words of the text. -/
theorem runWords_settle (afterBlank : Bool) (t : Text) : runWords (settle afterBlank t) = runWords t := by
  induction hn : t.length using Nat.strongRecOn generalizing afterBlank t with
  | ind n ih =>
    cases t with
    | nil => rfl
    | cons c cs =>
      have shorter : cs.length < n := by rw [← hn]; simp
      cases h : blank c with
      | true =>
        have mark := not_wordChar_of_blank h
        cases afterBlank with
        | false => rw [(settle_blank h cs).1, runWords_cons_mark (by decide), runWords_cons_mark mark, ih _ shorter _ _ rfl]
        | true => rw [(settle_blank h cs).2, runWords_cons_mark mark, ih _ shorter _ _ rfl]
      | false =>
        rw [settle_solid h]
        cases word : wordChar c with
        | false => rw [runWords_cons_mark word, runWords_cons_mark word, ih _ shorter _ _ rfl]
        | true =>
          have rest : (cs.dropWhile wordChar).length < n :=
            Nat.lt_of_le_of_lt (List.dropWhile_suffix (l := cs) wordChar).length_le shorter
          rw [runWords_cons word, runWords_cons word, takeWhile_wordChar_settle, dropWhile_wordChar_settle,
            ih _ rest _ _ rfl]

theorem runWords_collapse (t : Text) : runWords (collapse t) = runWords t := by
  obtain ⟨gap, one, e, -⟩ := settle_true_eq t
  have marks : ∀ c ∈ gap, wordChar c = false := fun c hc => not_wordChar_of_blank (blanks_of_gap one c hc)
  rw [← runWords_settle true t, e, runWords_append_of_head (fun c hc => marks c (List.mem_of_mem_head? hc)),
    runWords_marks marks, List.append_nil]

/-- Text without blanks at its end stays in front of what follows it. -/
theorem exists_collapse_append {s : Text} {c : Char} (solid : blank c = false) (t : Text) :
    ∃ rest, collapse (s ++ c :: t) = settle true s ++ c :: rest := by
  obtain ⟨gap, one, e, -⟩ := settle_true_eq (s ++ c :: t)
  rw [settle_append, settle_solid solid] at e
  rcases one with rfl | rfl
  · exact ⟨_, (e.trans (List.append_nil _)).symm⟩
  · obtain nil | ⟨rest, last, more⟩ := List.eq_nil_or_concat (settle false t)
    · rw [nil, ← List.concat_eq_append, ← List.concat_eq_append, List.concat_inj] at e
      exact absurd e.2 (by rintro rfl; revert solid; decide)
    · rw [more, List.concat_eq_append, ← List.cons_append, ← List.append_assoc] at e
      exact ⟨rest, (List.append_inj_left' e rfl).symm⟩

end EndpointSurvey.Text
