/-
What splitters and brackets pass over: a splitter passes over what is in one piece, and neither sees the kind of blanks.

Main statements: `segmentsFrom_passes` (a text passed over goes in front of the first segment of what follows),
`closing?_map` (a bracket closes at the same place) and `splitTop_map` (the segments of a text are those of its image,
mapped).
-/
import EndpointSurvey.Proofs.Text.BlankMap
import EndpointSurvey.Proofs.Text.Spacing
import EndpointSurvey.Source.Bracket

namespace EndpointSurvey

namespace Splitter

/-- the state after a text; nothing if it is cut -/
def passes? (separator : Char) (angle : Bool) (s : Splitter) : Text → Option Splitter
  | [] => some s
  | c :: cs => if s.cutsAt separator angle c then none else passes? separator angle (s.step angle c) cs

section
variable {separator : Char} {angle : Bool}

theorem passes?_append (s : Splitter) (t u : Text) :
    s.passes? separator angle (t ++ u) = (s.passes? separator angle t).bind (·.passes? separator angle u) := by
  induction t generalizing s with
  | nil => rfl
  | cons c cs ih =>
    rw [List.cons_append, passes?, passes?]
    split
    · rfl
    · exact ih _

/-- A text passed over goes in front of the first segment of what follows. -/
theorem segmentsFrom_passes {s s' : Splitter} {t u first : Text} {rest : List Text}
    (h : s.passes? separator angle t = some s') (tail : segmentsFrom separator angle s' u = first :: rest) :
    segmentsFrom separator angle s (t ++ u) = (t ++ first) :: rest := by
  induction t generalizing s with
  | nil => cases h; exact tail
  | cons c cs ih =>
    unfold passes? at h
    split at h
    · cases h
    · next stays =>
      rw [List.cons_append, segmentsFrom, if_neg stays, ih h]
      rfl

/-- a text without quotes that leaves the splitter outside quotes at the depth it had -/
def Level (separator : Char) (angle : Bool) (depth : Nat) (t : Text) : Prop :=
  ∀ before, ∃ before', passes? separator angle ⟨.outside, depth, before⟩ t = some ⟨.outside, depth, before'⟩

variable {depth : Nat} {t : Text}

/-- is the character no quote and no bracket? -/
def evenMark (angle : Bool) (c : Char) : Bool := c != '"' && c != '\'' && !opens angle c && !closes angle c

theorem evenMark_of_blank {c : Char} (h : blank c = true) (angle : Bool) : evenMark angle c = true := by
  have other : ∀ {d}, blank d = false → c ≠ d := ne_of_test h
  simp [evenMark, opens, closes, other (d := '"') (by decide), other (d := '\'') (by decide), other (d := '(') (by decide),
    other (d := ')') (by decide), other (d := '[') (by decide), other (d := ']') (by decide),
    other (d := '\x7b') (by decide), other (d := '\x7d') (by decide), other (d := '<') (by decide),
    other (d := '>') (by decide)]

theorem stepOutside_even {c : Char} (even : evenMark angle c = true) (s : Splitter) :
    s.stepOutside angle c = ⟨.outside, s.depth, c⟩ := by
  simp only [evenMark, Bool.and_eq_true, bne_iff_ne, Bool.not_eq_true'] at even
  obtain ⟨⟨⟨double, single⟩, up⟩, down⟩ := even
  rw [stepOutside, if_neg double, if_neg single, if_neg (by rw [up]; exact Bool.false_ne_true),
    if_neg (by rw [down]; exact Bool.false_ne_true)]

theorem level_even (h : ∀ c ∈ t, evenMark angle c = true) (inside : 0 < depth ∨ separator ∉ t) :
    Level separator angle depth t := by
  induction t with
  | nil => exact fun before => ⟨before, rfl⟩
  | cons c cs ih =>
    intro before
    have stays : Splitter.cutsAt separator angle ⟨.outside, depth, before⟩ c = false := by
      rcases inside with deep | absent
      · simp [cutsAt, Nat.ne_of_gt deep]
      · simp [cutsAt, show c ≠ separator from fun e => absent (e ▸ List.mem_cons_self)]
    obtain ⟨last, tail⟩ := ih (fun d hd => h d (List.mem_cons_of_mem c hd))
      (inside.imp_right fun absent hm => absent (List.mem_cons_of_mem c hm)) (some c)
    refine ⟨last, ?_⟩
    rw [passes?, stays, if_neg Bool.false_ne_true]
    exact (congrArg (passes? separator angle · cs) (stepOutside_even (h c List.mem_cons_self) _)).trans tail

end

end Splitter

/-- What is read of an empty text does not count among what is read of the segments. -/
theorem filterMap_splitTop {α : Type} {read : Text → Option α} (empty : read [] = none) (angle : Bool) (t : Text) :
    (splitTop ',' angle t).filterMap read = ((segments ',' angle t).map Text.trim).filterMap read := by
  rw [splitTop]
  generalize (segments ',' angle t).map Text.trim = found
  split
  · next last =>
    obtain ⟨front, rfl⟩ := List.getLast?_eq_some_iff.1 last
    rw [List.dropLast_concat, List.filterMap_append, List.filterMap_cons_none empty, List.filterMap_nil,
      List.append_nil]
  · rfl

/-! ## Brackets and the kind of blanks -/

namespace BlankMap

variable {φ : Char → Char}

theorem closingFrom_map (h : BlankMap φ) {opener closer : Char} (ho : opener ≠ '\n' ∧ opener ≠ ' ')
    (hc : closer ≠ '\n' ∧ closer ≠ ' ') (depth : Int) (offset : Nat) (t : Text) :
    closingFrom opener closer depth offset (t.map φ) = closingFrom opener closer depth offset t := by
  induction t generalizing depth offset with
  | nil => rfl
  | cons c cs ih =>
    simp only [List.map_cons, closingFrom, h.eq_iff ho.1 ho.2, h.eq_iff hc.1 hc.2, ih]

/-- Brackets close at the same places. -/
theorem closing?_map (h : BlankMap φ) {opener closer : Char} (ho : opener ≠ '\n' ∧ opener ≠ ' ')
    (hc : closer ≠ '\n' ∧ closer ≠ ' ') (t : Text) : closing? opener closer (t.map φ) = closing? opener closer t :=
  h.closingFrom_map ho hc 0 0 t

theorem replaceGroups_map (h : BlankMap φ) {into : Text} (same : into.map φ = into) (t : Text) :
    replaceGroups into (t.map φ) = (replaceGroups into t).map φ := by
  fun_induction replaceGroups into t with
  | case1 => rw [List.map_nil, replaceGroups]
  | case2 c cs opens ih =>
    have opens' : φ c = '[' ∧ List.contains (cs.map φ) ']' = true := by
      rw [h.contains_map (by decide) (by decide), h.eq_iff (by decide) (by decide)]
      exact opens
    rw [List.map_cons, replaceGroups, if_pos opens', h.dropWhile_map (by decide), ← List.map_drop, ih, List.map_append,
      same]
  | case3 c cs other ih =>
    have other' : ¬ (φ c = '[' ∧ List.contains (cs.map φ) ']' = true) := by
      rw [h.contains_map (by decide) (by decide), h.eq_iff (by decide) (by decide)]
      exact other
    rw [List.map_cons, replaceGroups, if_neg other', ih, List.map_cons]

/-! ## Segments -/

/-- the state of a splitter of the image -/
def splitter (φ : Char → Char) (s : Splitter) : Splitter := ⟨s.quote, s.depth, s.before.map φ⟩

theorem opens_map (h : BlankMap φ) (angle : Bool) (c : Char) : opens angle (φ c) = opens angle c :=
  h.test (by cases angle <;> decide) c

theorem closes_map (h : BlankMap φ) (angle : Bool) (c : Char) : closes angle (φ c) = closes angle c :=
  h.test (by cases angle <;> decide) c

theorem stepOutside_map (h : BlankMap φ) (angle : Bool) (s : Splitter) (c : Char) :
    (splitter φ s).stepOutside angle (φ c) = splitter φ (s.stepOutside angle c) := by
  have at_ : s.before.map φ = some '@' ↔ s.before = some '@' := by
    cases s.before with
    | none => simp
    | some d =>
      rw [Option.map_some, Option.some.injEq, Option.some.injEq]
      exact h.eq_iff (by decide) (by decide) d
  unfold Splitter.stepOutside
  simp only [h.eq_iff (show '"' ≠ '\n' by decide) (show '"' ≠ ' ' by decide),
    h.eq_iff (show '\'' ≠ '\n' by decide) (show '\'' ≠ ' ' by decide), h.opens_map, h.closes_map, splitter, at_]
  split
  · rfl
  · split
    · rfl
    · split
      · rfl
      · split <;> rfl

theorem step_map (h : BlankMap φ) (angle : Bool) (s : Splitter) (c : Char) :
    (splitter φ s).step angle (φ c) = splitter φ (s.step angle c) := by
  have quote := h.eq_iff (show '"' ≠ '\n' by decide) (show '"' ≠ ' ' by decide) c
  have apostrophe := h.eq_iff (show '\'' ≠ '\n' by decide) (show '\'' ≠ ' ' by decide) c
  have backslash := h.eq_iff (show '\\' ≠ '\n' by decide) (show '\\' ≠ ' ' by decide) c
  have outside := h.stepOutside_map angle s c
  unfold Splitter.step
  simp only [quote, apostrophe, backslash]
  cases hq : s.quote <;> simp only [splitter, hq] at outside ⊢
  all_goals first
    | exact outside
    | (split <;> first | rfl | exact outside | (split <;> rfl))
    | rfl

theorem cutsAt_map (h : BlankMap φ) {separator : Char} (feed : separator ≠ '\n') (space : separator ≠ ' ')
    (angle : Bool) (s : Splitter) (c : Char) :
    (splitter φ s).cutsAt separator angle (φ c) = s.cutsAt separator angle c := by
  have equal : ∀ {d : Char}, d ≠ '\n' → d ≠ ' ' → (φ c == d) = (c == d) := by
    intro d feed space
    rw [Bool.eq_iff_iff, beq_iff_eq, beq_iff_eq]
    exact h.eq_iff feed space c
  unfold Splitter.cutsAt Splitter.outside bne
  rw [equal feed space, equal (show '"' ≠ '\n' by decide) (by decide), equal (show '\'' ≠ '\n' by decide) (by decide),
    h.opens_map, h.closes_map]
  rfl

theorem extendFirst_map (c : Char) (parts : List Text) :
    extendFirst (φ c) (parts.map (List.map φ)) = (extendFirst c parts).map (List.map φ) := by
  cases parts <;> rfl

theorem segmentsFrom_map (h : BlankMap φ) {separator : Char} (feed : separator ≠ '\n') (space : separator ≠ ' ')
    (angle : Bool) (s : Splitter) (t : Text) :
    segmentsFrom separator angle (splitter φ s) (t.map φ) = (segmentsFrom separator angle s t).map (List.map φ) := by
  induction t generalizing s with
  | nil => rfl
  | cons c cs ih =>
    rw [List.map_cons, segmentsFrom, segmentsFrom, h.cutsAt_map feed space, h.step_map, ih]
    split
    · rfl
    · exact extendFirst_map c _

/-- The segments of an image are those of the text, mapped. -/
theorem splitTop_map (h : BlankMap φ) {separator : Char} (feed : separator ≠ '\n') (space : separator ≠ ' ')
    (angle : Bool) (t : Text) :
    splitTop separator angle (t.map φ) = (splitTop separator angle t).map (List.map φ) := by
  have parts : (segments separator angle (t.map φ)).map Text.trim =
      ((segments separator angle t).map Text.trim).map (List.map φ) := by
    rw [segments, show Splitter.start = splitter φ Splitter.start from rfl, h.segmentsFrom_map feed space, List.map_map,
      List.map_map]
    exact List.map_congr_left fun part _ => h.trim_map part
  unfold splitTop
  rw [parts]
  generalize (segments separator angle t).map Text.trim = ps
  have last : (ps.map (List.map φ)).getLast? = some [] ↔ ps.getLast? = some [] := by
    rw [List.getLast?_map]
    cases ps.getLast? with
    | none => simp
    | some p => simp
  simp only [last]
  split
  · exact (List.map_dropLast ..).symm
  · rfl

end BlankMap

end EndpointSurvey
