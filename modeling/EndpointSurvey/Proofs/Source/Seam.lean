/-
Two stretches of source joined at a seam: the first is blanked on its own, and its last solid character is a mark that
ends a declaration, with blanks up to the end of a line behind it.

Main statements:
- `Source.drop_append`, `slice_append_left`, `slice_append_right` and `slice_append_seam`: where a stretch of the joined
  source lies;
- `mask_faint`: blanking keeps line feeds and makes other characters spaces at most;
- `Sealed.seam`: so the code of a sealed text ends as the text does;
- `closing?_append` and `closing?_front`: what closes before the seam closes there, whatever follows.
-/
import EndpointSurvey.Proofs.Declaration.Values
import Mathlib.Data.List.Forall2
import Mathlib.Data.List.TakeWhile

namespace EndpointSurvey

namespace Text

variable {p : Char → Bool}

/-- A run that ends inside a text does not reach what follows it. -/
theorem takeWhile_append_of_lt {s : Text} (inside : (s.takeWhile p).length < s.length) (t : Text) :
    (s ++ t).takeWhile p = s.takeWhile p := by
  rw [List.takeWhile_append, if_neg (Nat.ne_of_lt inside)]

/-- A run that ends in the front of a text is that of the front alone. -/
theorem takeWhile_front {s t : Text} (inside : ((s ++ t).takeWhile p).length < s.length) :
    s.takeWhile p = (s ++ t).takeWhile p := by
  rw [List.takeWhile_append] at inside ⊢
  split
  · next all =>
    rw [if_pos all, List.length_append] at inside
    omega
  · rfl

theorem leadingBlanks_append_of_lt {s : Text} (inside : leadingBlanks s < s.length) (t : Text) :
    leadingBlanks (s ++ t) = leadingBlanks s := congrArg List.length (takeWhile_append_of_lt inside t)

/-- Blanks in front of a text are counted with those it starts with. -/
theorem leadingBlanks_append_of_all {s : Text} (all : ∀ c ∈ s, blank c = true) (t : Text) :
    leadingBlanks (s ++ t) = s.length + leadingBlanks t := by
  rw [leadingBlanks, List.takeWhile_append_of_pos all, List.length_append, leadingBlanks]

theorem takeEnd_of_all {t : Text} (all : ∀ c ∈ t, p c = true) : takeEnd p t = t :=
  takeEnd_append_of_all [] all

theorem takeEnd_length_le (p : Char → Bool) (t : Text) : (takeEnd p t).length ≤ t.length := by
  have taken_le := (List.takeWhile_prefix (l := t.reverse) p).length_le
  rwa [List.length_reverse, ← List.length_reverse] at taken_le

/-- The longest tail of a kind reaches into what stands before a text only over the whole of the text. -/
theorem takeEnd_append (p : Char → Bool) (s t : Text) :
    takeEnd p (s ++ t) = if t.all p then takeEnd p s ++ t else takeEnd p t := by
  by_cases all : t.all p = true
  · rw [if_pos all, takeEnd_append_of_all s (List.all_eq_true.1 all)]
  · have stops : (t.reverse.takeWhile p).length ≠ t.reverse.length := by
      intro whole
      apply all
      have taken := (List.takeWhile_prefix p).eq_of_length whole
      rw [List.all_eq_true]
      exact fun c hc => List.takeWhile_eq_self_iff.1 taken c (List.mem_reverse.2 hc)
    rw [if_neg all, takeEnd, List.reverse_append, List.takeWhile_append, if_neg stops, takeEnd]

/-- The longest tail of a kind ends where a character of another kind stands. -/
theorem takeEnd_append_stop {s : Text} (last : ∀ c ∈ s.getLast?, p c = false) (t : Text) :
    takeEnd p (s ++ t) = takeEnd p t := by
  rw [takeEnd_append]
  split
  · next all =>
    have none : takeEnd p s = [] := by
      have within := takeEnd_append_within last []
      rwa [List.append_nil, List.suffix_nil] at within
    rw [none, takeEnd_of_all (List.all_eq_true.1 all), List.nil_append]
  · rfl

end Text

/-! ## Joined sources -/

namespace Source

instance : Append Source := ⟨fun s t => ⟨s.raw ++ t.raw, s.code ++ t.code, by simp [s.aligned, t.aligned]⟩⟩

variable {s t : Source} {a b n : Nat}

@[simp] theorem raw_append (s t : Source) : (s ++ t).raw = s.raw ++ t.raw := rfl

@[simp] theorem code_append (s t : Source) : (s ++ t).code = s.code ++ t.code := rfl

theorem raw_length (s : Source) : s.raw.length = s.length := s.aligned

theorem code_length (s : Source) : s.code.length = s.length := rfl

theorem code_take_append (s t : Source) (n : Nat) : (s ++ t).code.take (s.length + n) = s.code ++ t.code.take n :=
  List.take_length_add_append n

theorem code_drop_append (s t : Source) (n : Nat) : (s ++ t).code.drop (s.length + n) = t.code.drop n :=
  List.drop_length_add_append n

theorem take_append (s t : Source) (n : Nat) : (s ++ t).take (s.length + n) = s ++ t.take n := by
  apply ext
  · rw [raw_take, raw_append, ← raw_length, List.take_length_add_append]
    rfl
  · exact code_take_append s t n

theorem drop_append (s t : Source) (n : Nat) : (s ++ t).drop (s.length + n) = t.drop n := by
  apply ext
  · rw [raw_drop, raw_append, ← raw_length, List.drop_length_add_append, raw_drop]
  · exact code_drop_append s t n

theorem drop_append_left (inside : n ≤ s.length) (t : Source) : (s ++ t).drop n = s.drop n ++ t := by
  apply ext
  · rw [raw_drop, raw_append, List.drop_append_of_le_length (by rwa [raw_length])]
    rfl
  · rw [code_drop, code_append, List.drop_append_of_le_length inside]
    rfl

theorem slice_append_right (s t : Source) (a b : Nat) :
    (s ++ t).slice (s.length + a) (s.length + b) = t.slice a b := by
  rw [slice, drop_append, Nat.add_sub_add_left, slice]

theorem take_append_left (inside : n ≤ s.length) (t : Source) : (s ++ t).take n = s.take n := by
  apply ext
  · rw [raw_take, raw_append, List.take_append_of_le_length (by rwa [raw_length]), raw_take]
  · rw [code_take, code_append, List.take_append_of_le_length (by rwa [code_length]), code_take]

theorem slice_eq (a b : Nat) (s : Source) : s.slice a b = (s.take b).drop a := by
  apply ext
  · rw [raw_slice, raw_drop, raw_take, List.drop_take]
  · rw [code_slice, code_drop, code_take, List.drop_take]

theorem slice_append_left (inside : b ≤ s.length) (t : Source) (a : Nat) : (s ++ t).slice a b = s.slice a b := by
  rw [slice_eq, take_append_left inside, slice_eq]

/-- A stretch over the seam is the end of one source and the start of the other. -/
theorem slice_append_seam (inside : a ≤ s.length) (t : Source) (b : Nat) :
    (s ++ t).slice a (s.length + b) = s.drop a ++ t.take b := by
  rw [slice_eq]
  apply ext
  · rw [raw_drop, raw_take, raw_append, raw_append, ← raw_length, List.take_length_add_append, raw_drop, raw_take,
      List.drop_append_of_le_length (by rwa [raw_length])]
  · rw [code_drop, code_take, code_append, code_append, ← code_length, List.take_length_add_append, code_drop, code_take,
      List.drop_append_of_le_length inside]

end Source

/-! ## What blanking leaves of a text -/

/-- the character stays, or turns into a space; a line feed stays -/
def Faint (c d : Char) : Prop := d = c ∨ d = ' ' ∧ c ≠ '\n'

theorem Faint.blank {c d : Char} (h : Faint c d) (space : blank c = true) : blank d = true := by
  rcases h with rfl | ⟨rfl, _⟩
  · exact space
  · decide

open Lexeme

theorem faint_refl (t : Text) : List.Forall₂ Faint t t := List.forall₂_same.2 fun _ _ => .inl rfl

theorem faint_blankOut (t : Text) : List.Forall₂ Faint t (blankOut t) := by
  rw [blankOut, List.forall₂_map_right_iff, List.forall₂_same]
  intro c _
  split
  · next feed => exact .inl feed.symm
  · next visible => exact .inr ⟨rfl, visible⟩

theorem faint_masked (literals : Bool) (l : Lexeme) : List.Forall₂ Faint l.raw (l.masked literals) := by
  cases l with
  | code c => exact faint_refl _
  | remark body => exact faint_blankOut body
  | literal opening body closing =>
    refine List.rel_append (List.rel_append (faint_refl opening) ?_) (faint_refl closing)
    split
    · exact faint_blankOut body
    · exact faint_refl body

/-- Blanking a text leaves its line feeds, and makes spaces of other characters at most. -/
theorem mask_faint (literals : Bool) (t : Text) : List.Forall₂ Faint t (mask literals t) := by
  have each : ∀ ls : List Lexeme, List.Forall₂ Faint (ls.flatMap raw) (ls.flatMap (masked literals)) := by
    intro ls
    induction ls with
    | nil => exact List.Forall₂.nil
    | cons l ls ih => exact List.rel_append (faint_masked literals l) ih
  have whole := each (lex t)
  rwa [lex_raw] at whole

theorem blank_of_faint {t u : Text} (faint : List.Forall₂ Faint t u) (blanks : ∀ c ∈ t, blank c = true) :
    ∀ c ∈ u, blank c = true := by
  induction faint with
  | nil => exact List.forall_mem_nil _
  | cons first _ ih =>
    obtain ⟨space, others⟩ := List.forall_mem_cons.1 blanks
    exact List.forall_mem_cons.2 ⟨first.blank space, ih others⟩

theorem getLast?_of_faint {t u : Text} (faint : List.Forall₂ Faint t u) (feed : t.getLast? = some '\n') :
    u.getLast? = some '\n' := by
  have reversed := List.rel_reverse faint
  rw [List.getLast?_eq_head?_reverse] at feed ⊢
  obtain ⟨rest, e⟩ := List.head?_eq_some_iff.1 feed
  rw [e] at reversed
  obtain ⟨d, ds, last, -, same⟩ := List.forall₂_cons_left_iff.1 reversed
  rw [same]
  rcases last with rfl | ⟨_, visible⟩
  · rfl
  · exact absurd rfl visible

/-! ## Sealed texts -/

/-- A text that is blanked on its own, whatever follows it; its last solid character is a closing brace or a semicolon of
the code, and the blanks behind that end a line. -/
structure Sealed (a : Text) : Prop where
  blanked : ∀ s, mask true (a ++ s) = mask true a ++ mask true s
  last : ∃ front m gap, a = front ++ m :: gap ∧ (m = '\x7d' ∨ m = ';') ∧ (mask true a)[front.length]? = some m ∧
    (∀ c ∈ gap, blank c = true) ∧ gap.getLast? = some '\n'

/-- the code of a source up to a mark that ends a declaration, and the blank gap behind it that ends a line -/
structure Source.Seam (s : Source) (front : Text) (m : Char) (gap : Source) : Prop where
  code : s.code = front ++ m :: gap.code
  rest : gap = s.drop (front.length + 1)
  mark : m = '\x7d' ∨ m = ';'
  blankCode : ∀ c ∈ gap.code, blank c = true
  blankRaw : ∀ c ∈ gap.raw, blank c = true
  feedCode : gap.code.getLast? = some '\n'
  feedRaw : gap.raw.getLast? = some '\n'

/-- The code of a sealed text ends as the text does. -/
theorem Sealed.seam {a : Text} (h : Sealed a) : ∃ front m gap, (Source.ofText a).Seam front m gap := by
  obtain ⟨front, m, gap, e, mark, here, blanks, feed⟩ := h.last
  have raw : a.drop (front.length + 1) = gap := by
    rw [e, ← List.drop_drop, List.drop_left, List.drop_one, List.tail_cons]
  have faint : List.Forall₂ Faint gap ((mask true a).drop (front.length + 1)) := by
    have rest := List.forall₂_drop (front.length + 1) (mask_faint true a)
    rwa [raw] at rest
  refine ⟨(mask true a).take front.length, m, (Source.ofText a).drop (front.length + 1), ?_, ?_, mark, ?_, ?_, ?_, ?_⟩
  · obtain ⟨inside, here⟩ := List.getElem?_eq_some_iff.1 here
    calc mask true a
      _ = (mask true a).take front.length ++ (mask true a).drop front.length := (List.take_append_drop ..).symm
      _ = (mask true a).take front.length ++ m :: (mask true a).drop (front.length + 1) := by
        rw [List.drop_eq_getElem_cons inside, here]
  · have inside := (List.getElem?_eq_some_iff.1 here).1
    rw [List.length_take, Nat.min_eq_left (Nat.le_of_lt inside)]
  · exact blank_of_faint faint blanks
  · rw [Source.raw_drop, Source.raw_ofText, raw]
    exact blanks
  · exact getLast?_of_faint faint feed
  · rw [Source.raw_drop, Source.raw_ofText, raw]
    exact feed

/-- Sealed texts and texts behind them are blanked apart. -/
theorem Sealed.ofText_append {a : Text} (h : Sealed a) (b : Text) :
    Source.ofText (a ++ b) = Source.ofText a ++ Source.ofText b := Source.ext rfl (h.blanked b)

/-! ## Brackets before a seam -/

theorem closingFrom_append {opener closer : Char} {depth : Int} {offset i : Nat} {s : Text}
    (h : closingFrom opener closer depth offset s = some i) (t : Text) :
    closingFrom opener closer depth offset (s ++ t) = some i := by
  induction s generalizing depth offset with
  | nil => cases h
  | cons c cs ih =>
    rw [List.cons_append]
    unfold closingFrom at h ⊢
    split
    · next opens =>
      rw [if_pos opens] at h
      exact ih h
    · next other =>
      rw [if_neg other] at h
      split
      · next closes =>
        rw [if_pos closes] at h
        split
        · next last => rwa [if_pos last] at h
        · next deeper =>
          rw [if_neg deeper] at h
          exact ih h
      · next plain =>
        rw [if_neg plain] at h
        exact ih h

/-- What closes in a text closes at the same place, whatever follows. -/
theorem closing?_append {opener closer : Char} {i : Nat} {s : Text} (h : closing? opener closer s = some i) (t : Text) :
    closing? opener closer (s ++ t) = some i := closingFrom_append h t

/-- What closes in the front of a text closes there in the front alone. -/
theorem closingFrom_front {opener closer : Char} {depth : Int} {offset i : Nat} {s t : Text}
    (h : closingFrom opener closer depth offset (s ++ t) = some i) (inside : i < offset + s.length) :
    closingFrom opener closer depth offset s = some i := by
  induction s generalizing depth offset with
  | nil => exact absurd inside (Nat.not_lt.2 (closingFrom_bounds h).1)
  | cons c cs ih =>
    have room : i < offset + 1 + cs.length := by rwa [Nat.add_assoc, Nat.add_comm 1]
    rw [List.cons_append] at h
    unfold closingFrom at h ⊢
    split
    · next opens =>
      rw [if_pos opens] at h
      exact ih h room
    · next other =>
      rw [if_neg other] at h
      split
      · next closes =>
        rw [if_pos closes] at h
        split
        · next last => rwa [if_pos last] at h
        · next deeper =>
          rw [if_neg deeper] at h
          exact ih h room
      · next plain =>
        rw [if_neg plain] at h
        exact ih h room

theorem closing?_front {opener closer : Char} {i : Nat} {s t : Text} (h : closing? opener closer (s ++ t) = some i)
    (inside : i < s.length) : closing? opener closer s = some i :=
  closingFrom_front h (by rwa [Nat.zero_add])

end EndpointSurvey
