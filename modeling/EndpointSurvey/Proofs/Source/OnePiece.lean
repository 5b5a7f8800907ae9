/-
What a splitter that stands outside quotes passes over in one piece: literals, characters that are neither quotes nor
brackets, and bracketed groups. A list of such pieces is split into them.

Main statements: `OnePiece.append`, `OnePiece.group`, `onePiece_literal`, `splitTop_commas` and `splitTop_join`.
-/
import EndpointSurvey.Proofs.Source.Items

namespace EndpointSurvey

open Lexeme Splitter

/-- A splitter at rest in front of the text, at this depth, passes over it in one piece and rests behind it at the same
depth, unless a quote follows. -/
def OnePiece (angle : Bool) (depth : Nat) (t : Text) : Prop :=
  ∀ (s : Splitter) (rest : Text), s.depth = depth → Resting s (t ++ rest) → rest.head? ≠ some '"' →
    ∃ s', s.passes? ',' angle t = some s' ∧ s'.depth = depth ∧ Resting s' rest

section
variable {angle : Bool} {depth : Nat} {t u : Text}

theorem onePiece_nil : OnePiece angle depth [] := fun s _ same resting _ => ⟨s, rfl, same, resting⟩

theorem OnePiece.append (ht : OnePiece angle depth t) (hu : OnePiece angle depth u) (first : u.head? ≠ some '"') :
    OnePiece angle depth (t ++ u) := by
  intro s rest same resting next
  rw [List.append_assoc] at resting
  have first' : (u ++ rest).head? ≠ some '"' := by
    cases u with
    | nil => exact next
    | cons c cs => exact first
  obtain ⟨mid, passed, same', resting'⟩ := ht s (u ++ rest) same resting first'
  obtain ⟨last, passed', same'', resting''⟩ := hu mid rest same' resting' next
  exact ⟨last, by rw [passes?_append, passed, Option.bind_some, passed'], same'', resting''⟩

/-- A splitter that has passed a character other than `@` outside quotes is at rest in front of every text. -/
theorem resting_outside (depth : Nat) {c : Char} (other : c ≠ '@') (t : Text) : Resting ⟨.outside, depth, some c⟩ t :=
  ⟨.inl rfl, fun e => absurd (Option.some.inj e) other⟩

/-- A character that is neither a quote nor a bracket goes in front of a piece, if it is no separator. -/
theorem OnePiece.cons {c : Char} (even : evenMark angle c = true) (stays : 0 < depth ∨ c ≠ ',') (other : c ≠ '@')
    (h : OnePiece angle depth t) : OnePiece angle depth (c :: t) := by
  intro s rest same resting next
  obtain ⟨last, passed, same', resting'⟩ := h ⟨.outside, depth, some c⟩ rest rfl (resting_outside depth other _) next
  have here : s.cutsAt ',' angle c = false := by
    rcases stays with deep | plain
    · simp [cutsAt, same, Nat.ne_of_gt deep]
    · simp [cutsAt, plain]
  refine ⟨last, ?_, same', resting'⟩
  rw [passes?, here, if_neg Bool.false_ne_true, resting.step, stepOutside_even even, same]
  exact passed

/-- A text without quotes that a splitter passes over is one piece. -/
theorem OnePiece.of_level (h : Splitter.Level ',' angle depth t) : OnePiece angle depth t := by
  intro s rest same resting next
  obtain ⟨last, passed⟩ := h s.before
  have resting' : Resting ⟨.outside, depth, last⟩ rest := ⟨.inl rfl, fun _ => next⟩
  cases t with
  | nil => exact ⟨s, rfl, same, resting⟩
  | cons c cs =>
    refine ⟨_, ?_, rfl, resting'⟩
    -- behind a verbatim string the splitter takes the next character as it would outside quotes
    have same_step : s.step angle c = step angle ⟨.outside, depth, s.before⟩ c := by
      rw [resting.step]
      simp [step, stepOutside, same]
    have same_cut : s.cutsAt ',' angle c = cutsAt ',' angle ⟨.outside, depth, s.before⟩ c := by
      rw [cutsAt, cutsAt, resting.outside, same]
      rfl
    rw [passes?, same_step, same_cut]
    exact passed

theorem onePiece_even (even : ∀ c ∈ t, evenMark angle c = true) (inside : 0 < depth ∨ ',' ∉ t) :
    OnePiece angle depth t := .of_level (level_even even inside)

/-- A bracketed group is one piece where its inside is one, a level deeper. -/
theorem OnePiece.group {o c : Char} (opener : opens angle o = true) (closer : closes angle c = true)
    (plain : o ∉ (['"', '\'', '@'] : Text) ∧ c ∉ (['"', '\'', '@'] : Text)) (clear : opens angle c = false)
    (h : OnePiece angle (depth + 1) t) : OnePiece angle depth (o :: (t ++ [c])) := by
  simp only [List.mem_cons, List.not_mem_nil, or_false, not_or] at plain
  obtain ⟨⟨od, os, oa⟩, cd, cs, ca⟩ := plain
  intro s rest same resting _
  have up : s.stepOutside angle o = ⟨.outside, depth + 1, some o⟩ := by
    rw [stepOutside, if_neg od, if_neg os, if_pos opener, same]
  have enters : s.cutsAt ',' angle o = false := by simp [cutsAt, opener]
  obtain ⟨mid, passed, deep, resting'⟩ := h ⟨.outside, depth + 1, some o⟩ (c :: rest) rfl
    (resting_outside _ oa _) (by simpa using cd)
  have down : mid.stepOutside angle c = ⟨.outside, depth, some c⟩ := by
    rw [stepOutside, if_neg cd, if_neg cs, if_neg (by rw [clear]; exact Bool.false_ne_true), if_pos closer, deep,
      Nat.add_sub_cancel]
  have leaves : mid.cutsAt ',' angle c = false := by simp [cutsAt, closer]
  refine ⟨⟨.outside, depth, some c⟩, ?_, rfl, resting_outside _ ca _⟩
  rw [passes?, enters, if_neg Bool.false_ne_true, resting.step, up, passes?_append, passed, Option.bind_some, passes?,
    leaves, if_neg Bool.false_ne_true, resting'.step, down, passes?]

/-- So does a text of such characters. -/
theorem OnePiece.plain_append (even : ∀ c ∈ u, evenMark angle c = true ∧ c ≠ '@') (stays : 0 < depth ∨ ',' ∉ u)
    (h : OnePiece angle depth t) : OnePiece angle depth (u ++ t) := by
  induction u with
  | nil => exact h
  | cons c cs ih =>
    obtain ⟨here, later⟩ := List.forall_mem_cons.1 even
    simp only [List.mem_cons, not_or] at stays
    exact (ih later (stays.imp_right And.right)).cons here.1 (stays.imp_right fun apart => Ne.symm apart.1) here.2

/-- Inside brackets a list of pieces is one piece, whatever even text stands between them. -/
theorem onePiece_join {parts : List Text} {between : Text} (even : ∀ c ∈ between, evenMark angle c = true ∧ c ≠ '@')
    (wide : between ≠ []) (pieces : ∀ t ∈ parts, OnePiece angle (depth + 1) t) :
    OnePiece angle (depth + 1) (Text.join between parts) := by
  induction parts with
  | nil => exact onePiece_nil
  | cons t ts ih =>
    obtain ⟨here, later⟩ := List.forall_mem_cons.1 pieces
    cases ts with
    | nil => simpa [Text.join] using here
    | cons u us =>
      obtain ⟨c, cs, rfl⟩ := List.exists_cons_of_ne_nil wide
      have quote : c ≠ '"' := fun e => absurd (even c List.mem_cons_self).1 (by rw [e]; simp [evenMark])
      rw [Text.join_cons]
      exact here.append ((ih later).plain_append even (.inl (Nat.succ_pos depth))) (by simpa using quote)

theorem evenMark_comma (angle : Bool) : ∀ c ∈ ([',', ' '] : Text), evenMark angle c = true ∧ c ≠ '@' := by
  cases angle <;> exact Text.forall_of_all (by decide)

/-- A plain literal is one piece. -/
theorem onePiece_literal {l : Lexeme} (h : ∀ rest : Text, rest.head? ≠ some '"' → PlainLiteral (l.raw ++ rest) l rest) :
    OnePiece angle depth l.raw := by
  intro s rest same resting next
  obtain ⟨s', passed, same', resting'⟩ := @passes?_literal _ angle _ _ (h rest next) _ resting
  exact ⟨s', passed, same'.trans same, resting'⟩

end

/-! ## Lists of pieces -/

/-- A space behind each comma is a space in front of each part but the first. -/
theorem join_spaced (t : Text) (ts : List Text) :
    Text.join ", " (t :: ts) = Text.join "," (t :: ts.map (' ' :: ·)) := by
  induction ts generalizing t with
  | nil => simp [Text.join]
  | cons u us ih =>
    have rest : ' ' :: Text.join "," (u :: us.map (' ' :: ·)) = Text.join "," ((' ' :: u) :: us.map (' ' :: ·)) := by
      cases us with
      | nil => simp [Text.join]
      | cons v vs => rw [List.map_cons, Text.join_cons, Text.join_cons, List.cons_append]
    rw [List.map_cons, Text.join_cons, Text.join_cons, ← rest, ih]
    rfl

theorem trim_space (t : Text) : Text.trim (' ' :: t) = Text.trim t := by
  rw [Text.trim, Text.trim, Text.trimLeft, List.dropWhile_cons_of_pos (by decide), Text.trimLeft]

theorem map_trim_extendFirst {parts : List Text} (filled : parts ≠ []) :
    (extendFirst ' ' parts).map Text.trim = parts.map Text.trim := by
  cases parts with
  | nil => exact absurd rfl filled
  | cons t ts => rw [extendFirst, List.map_cons, trim_space, List.map_cons]

section
variable {angle : Bool} {t : Text} {parts : List Text}

/-- A piece and a comma are cut off what follows. -/
theorem segmentsFrom_piece (piece : OnePiece angle 0 t) {s : Splitter} (flat : s.depth = 0) {x : Text}
    (resting : Resting s (t ++ ',' :: x)) :
    segmentsFrom ',' angle s (t ++ ',' :: x) = t :: segmentsFrom ',' angle ⟨.outside, 0, some ','⟩ x := by
  obtain ⟨s', passed, flat', resting'⟩ := piece s (',' :: x) flat resting (by simp)
  have even : evenMark angle ',' = true := by cases angle <;> rfl
  have cuts : s'.cutsAt ',' angle ',' = true := by
    simp only [evenMark, Bool.and_eq_true, Bool.not_eq_true'] at even
    simp [cutsAt, resting'.outside, flat', even]
  have comma : segmentsFrom ',' angle s' (',' :: x) = [] :: segmentsFrom ',' angle ⟨.outside, 0, some ','⟩ x := by
    rw [segmentsFrom, cuts, if_pos rfl, resting'.step, stepOutside_even even, flat']
  rw [segmentsFrom_passes passed comma, List.append_nil]

theorem segmentsFrom_space (x : Text) : segmentsFrom ',' angle ⟨.outside, 0, some ','⟩ (' ' :: x) =
    extendFirst ' ' (segmentsFrom ',' angle ⟨.outside, 0, some ' '⟩ x) := by
  have space : step angle ⟨.outside, 0, some ','⟩ ' ' = ⟨.outside, 0, some ' '⟩ := by cases angle <;> rfl
  have stays : cutsAt ',' angle ⟨.outside, 0, some ','⟩ ' ' = false := by cases angle <;> rfl
  rw [segmentsFrom, stays, space]
  rfl

/-- So is it when a space follows the comma: only the ends of the segments are trimmed. -/
theorem map_trim_segmentsFrom_piece (piece : OnePiece angle 0 t) {s : Splitter} (flat : s.depth = 0) {x : Text}
    (resting : Resting s (t ++ ',' :: ' ' :: x)) : (segmentsFrom ',' angle s (t ++ ',' :: ' ' :: x)).map Text.trim =
      t.trim :: (segmentsFrom ',' angle ⟨.outside, 0, some ' '⟩ x).map Text.trim := by
  rw [segmentsFrom_piece piece flat resting, segmentsFrom_space, List.map_cons,
    map_trim_extendFirst (segmentsFrom_ne_nil _ _ _ _)]

theorem segmentsFrom_commas (filled : parts ≠ []) (pieces : ∀ t ∈ parts, OnePiece angle 0 t) {s : Splitter}
    (flat : s.depth = 0) (resting : Resting s (Text.join "," parts)) :
    segmentsFrom ',' angle s (Text.join "," parts) = parts := by
  induction parts generalizing s with
  | nil => exact absurd rfl filled
  | cons t ts ih =>
    obtain ⟨here, later⟩ := List.forall_mem_cons.1 pieces
    cases ts with
    | nil =>
      have alone : Text.join "," [t] = t := by simp [Text.join]
      rw [alone] at resting ⊢
      obtain ⟨s', passed, -, -⟩ := here s [] flat (by rwa [List.append_nil]) (by simp)
      have one : segmentsFrom ',' angle s (t ++ []) = [t ++ []] := segmentsFrom_passes passed rfl
      rwa [List.append_nil] at one
    | cons u us =>
      rw [Text.join_cons] at resting ⊢
      have rest : segmentsFrom ',' angle ⟨.outside, 0, some ','⟩ (Text.join "," (u :: us)) = u :: us :=
        ih (List.cons_ne_nil u us) later rfl (resting_outside 0 (by decide) _)
      exact (segmentsFrom_piece here flat resting).trans (congrArg (t :: ·) rest)

/-- **Pieces between commas are what a list splits into**, without the blanks around them. -/
theorem splitTop_commas (filled : parts ≠ []) (pieces : ∀ t ∈ parts, OnePiece angle 0 t)
    (solid : ∀ t ∈ parts, t.trim ≠ []) : splitTop ',' angle (Text.join "," parts) = parts.map Text.trim := by
  obtain ⟨front, last, e⟩ := (List.eq_nil_or_concat parts).resolve_left filled
  rw [List.concat_eq_append] at e
  have ends : last.trim ≠ [] := solid last (by rw [e]; simp)
  rw [splitTop, segments, segmentsFrom_commas filled pieces rfl (Lexeme.resting_start _)]
  refine if_neg fun none => ends ?_
  rw [e, List.map_append, List.map_singleton, List.getLast?_concat] at none
  exact Option.some.inj none

/-- **Pieces that are joined are what the list splits into.** -/
theorem splitTop_join (filled : parts ≠ []) (pieces : ∀ t ∈ parts, OnePiece angle 0 t ∧ t.trim = t)
    (solid : ∀ t ∈ parts, t ≠ []) : splitTop ',' angle (Text.join ", " parts) = parts := by
  obtain ⟨t, ts, rfl⟩ := List.exists_cons_of_ne_nil filled
  obtain ⟨here, later⟩ := List.forall_mem_cons.1 pieces
  have even : evenMark angle ' ' = true := by cases angle <;> rfl
  have trimmed : (t :: ts.map (' ' :: ·)).map Text.trim = t :: ts := by
    rw [List.map_cons, List.map_map, here.2, List.map_congr_left (g := id) fun u member => ?_, List.map_id]
    rw [Function.comp_apply, trim_space]
    exact (later u member).2
  rw [join_spaced, splitTop_commas (by simp) ?_ ?_, trimmed]
  · exact List.forall_mem_cons.2 ⟨here.1, List.forall_mem_map.2 fun u member =>
      .cons even (.inr (by decide)) (by decide) (later u member).1⟩
  · intro u member
    have kept : u.trim ∈ t :: ts := trimmed ▸ List.mem_map_of_mem member
    exact solid _ kept

end

end EndpointSurvey
