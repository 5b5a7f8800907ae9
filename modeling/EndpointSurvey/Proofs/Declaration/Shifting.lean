/-
The parts of a declaration in a joined source. What is read behind the seam is what the second source has, at offsets
counted from the start of the first; what ends before the seam is not disturbed by what follows.

Main statements:
- `membersOf_shift`: the members of a body that stands further on;
- `headingTail_append_right`, `headingTail_append_left` and `headingTail_front`: the tail of a heading behind the seam,
  and in front of it.
-/
import EndpointSurvey.Proofs.Declaration.Scanning
import EndpointSurvey.Proofs.Source.Seam
import Mathlib.Data.List.Basic

namespace EndpointSurvey

def HeadingTail.shift (k : Nat) (t : HeadingTail) : HeadingTail := { t with stop := k + t.stop }

def MemberBlock.shift (k : Nat) (m : MemberBlock) : MemberBlock := { m with start := k + m.start, stop := k + m.stop }

/-- the declaration with every offset, those of its members too, counted from a place `k` further in front -/
def TypeBlock.shift (k : Nat) (b : TypeBlock) : TypeBlock :=
  { b with start := k + b.start, stop := k + b.stop, members := b.members.map (MemberBlock.shift k) }

/-! ## Members -/

theorem memberOf?_shift (k offset : Nat) (body : Source) (cut : MemberCut) :
    memberOf? (k + offset) body cut = (memberOf? offset body cut).map (MemberBlock.shift k) := by
  unfold memberOf?
  dsimp only
  split
  · rfl
  · split
    · rfl
    · simp only [Option.map_some, MemberBlock.shift, Nat.add_assoc]

theorem membersOf_shift (k offset : Nat) (body : Source) :
    membersOf (k + offset) body = (membersOf offset body).map (MemberBlock.shift k) := by
  rw [membersOf, membersOf, List.map_filterMap]
  apply List.filterMap_congr
  rintro ⟨passed, cut⟩ -
  dsimp only
  rw [Nat.add_assoc, memberOf?_shift]

/-! ## Tails of headings -/

/-- the tail of a heading whose bracketed parts lie between these offsets, the last of them ending at an offset -/
def tailBetween (document : Source) (generic list : Option (Nat × Nat)) (afterList : Nat) : HeadingTail :=
  let rest := (document.code.drop afterList).takeWhile fun c => c != '\x7b' && c != ';'
  { typeParameters := match generic with
      | some (a, b) => ((Text.splitOn ',' (document.slice a b).code).map Text.trim).filter (!·.isEmpty)
      | none => []
    positional := list.map fun (a, b) => (document.slice a b).raw
    baseTypes := baseTypesOf rest
    stop := afterList + rest.length }

/-- where a parameter list may start behind type parameters -/
def listStart (code : Text) (offset : Nat) (generic : Option (Nat × Nat) × Nat) : Nat :=
  if generic.1.isSome then skipBlanks code generic.2 else skipBlanks code offset

theorem headingTail_eq (document : Source) (name : Text) (offset : Nat) : headingTail document name offset =
    match bracketed '<' '>' document.code (skipBlanks document.code offset) with
    | .error _ => .error (.openTypeParameters name)
    | .ok generic =>
      match bracketed '(' ')' document.code (listStart document.code offset generic) with
      | .error _ => .error (.openParameters name)
      | .ok list =>
        if document.code.length ≤ (tailBetween document generic.1 list.1 list.2).stop then .error (.missingBody name)
        else .ok (tailBetween document generic.1 list.1 list.2) := by
  unfold headingTail listStart
  dsimp only
  cases bracketed '<' '>' document.code (skipBlanks document.code offset) with
  | error e => rfl
  | ok generic =>
    simp only [Except.mapError, bind, Except.bind]
    cases bracketed '(' ')' document.code
        (if generic.1.isSome = true then skipBlanks document.code generic.2 else skipBlanks document.code offset) with
    | error e => rfl
    | ok list => rfl

/-- What is wrong with a tail that cannot be read is a matter of its structure. -/
theorem headingTail_structural {document : Source} {name : Text} {offset : Nat} {problem : Problem}
    (h : headingTail document name offset = .error problem) : problem.kind = .structural := by
  rw [headingTail_eq] at h
  split at h
  · cases h
    rfl
  · split at h
    · cases h
      rfl
    · split at h
      · cases h
        rfl
      · cases h

/-! ## Behind the seam -/

section
variable (s t : Source) (offset : Nat)

theorem skipBlanks_append_right : skipBlanks (s ++ t).code (s.length + offset) = s.length + skipBlanks t.code offset := by
  rw [skipBlanks, Source.code_drop_append, skipBlanks, Nat.add_assoc]

/-- the places between two brackets, and past them, counted from a place further in front -/
def shiftBrackets (k : Nat) (found : Option (Nat × Nat) × Nat) : Option (Nat × Nat) × Nat :=
  (found.1.map fun (a, b) => (k + a, k + b), k + found.2)

theorem bracketed_append_right (opener closer : Char) : bracketed opener closer (s ++ t).code (s.length + offset) =
    (bracketed opener closer t.code offset).map (shiftBrackets s.length) := by
  unfold bracketed
  dsimp only
  rw [Source.code_drop_append]
  split
  · split
    · rfl
    · simp only [Except.map, shiftBrackets, Option.map_some, Nat.add_assoc]
  · rfl

theorem listStart_append_right (generic : Option (Nat × Nat) × Nat) :
    listStart (s ++ t).code (s.length + offset) (shiftBrackets s.length generic) =
      s.length + listStart t.code offset generic := by
  unfold listStart shiftBrackets
  rw [Option.isSome_map, skipBlanks_append_right, skipBlanks_append_right]
  split <;> rfl

theorem tailBetween_append_right (generic list : Option (Nat × Nat) × Nat) :
    tailBetween (s ++ t) (shiftBrackets s.length generic).1 (shiftBrackets s.length list).1
        (shiftBrackets s.length list).2 = (tailBetween t generic.1 list.1 list.2).shift s.length := by
  unfold tailBetween shiftBrackets HeadingTail.shift
  dsimp only
  rw [Source.code_drop_append, Nat.add_assoc]
  congr 1
  · cases generic.1 with
    | none => rfl
    | some place => simp only [Option.map_some, Source.slice_append_right]
  · cases list.1 with
    | none => rfl
    | some place => simp only [Option.map_some, Source.slice_append_right]

/-- The tail of a heading behind the seam is that of the heading in the second source. -/
theorem headingTail_append_right (name : Text) :
    headingTail (s ++ t) name (s.length + offset) = (headingTail t name offset).map (HeadingTail.shift s.length) := by
  have size : (s ++ t).code.length = s.length + t.code.length := List.length_append
  rw [headingTail_eq, headingTail_eq, skipBlanks_append_right, bracketed_append_right]
  cases bracketed '<' '>' t.code (skipBlanks t.code offset) with
  | error e => rfl
  | ok generic =>
    simp only [Except.map]
    rw [listStart_append_right, bracketed_append_right]
    cases bracketed '(' ')' t.code (listStart t.code offset generic) with
    | error e => rfl
    | ok list =>
      simp only [Except.map, tailBetween_append_right, size, HeadingTail.shift, Nat.add_le_add_iff_left]
      split <;> rfl

end

/-! ## In front of the seam -/

section
variable {code : Text} {offset : Nat}

theorem skipBlanks_append_left (inside : skipBlanks code offset < code.length) (rest : Text) :
    skipBlanks (code ++ rest) offset = skipBlanks code offset := by
  unfold skipBlanks at inside ⊢
  rw [List.drop_append_of_le_length (by omega), Text.leadingBlanks_append_of_lt (by rw [List.length_drop]; omega)]

theorem bracketed_append_left {opener closer : Char} {found : Option (Nat × Nat) × Nat}
    (h : bracketed opener closer code offset = .ok found) (inside : offset < code.length) (rest : Text) :
    bracketed opener closer (code ++ rest) offset = .ok found := by
  obtain ⟨c, cs, here⟩ := List.exists_cons_of_ne_nil (List.drop_eq_nil_iff.not.2 (Nat.not_le.2 inside))
  have more : (code ++ rest).drop offset = c :: cs ++ rest := by
    rw [List.drop_append_of_le_length (Nat.le_of_lt inside), here]
  unfold bracketed at h ⊢
  simp only [here, more, List.cons_append, List.head?_cons] at h ⊢
  split at h
  · next opens =>
    rw [if_pos opens]
    split at h
    · cases h
    · next i closes =>
      rw [← List.cons_append, closing?_append closes]
      exact h
  · next other =>
    rw [if_neg other]
    exact h

/-- What stands in brackets lies in front of where they end. -/
theorem bracketed_bounds {opener closer : Char} {found : Option (Nat × Nat) × Nat}
    (h : bracketed opener closer code offset = .ok found) :
    offset ≤ found.2 ∧ ∀ place ∈ found.1, place.2 < found.2 := by
  unfold bracketed at h
  dsimp only at h
  split at h
  · split at h
    · cases h
    · cases h
      refine ⟨by omega, ?_⟩
      rintro place ⟨⟩
      exact Nat.lt_succ_self _
  · cases h
    exact ⟨Nat.le_refl _, fun _ given => by cases given⟩

/-- A parameter list starts behind the blanks after the name, and behind the type parameters. -/
theorem listStart_bounds {generic : Option (Nat × Nat) × Nat} (low : skipBlanks code offset ≤ generic.2) :
    skipBlanks code offset ≤ listStart code offset generic ∧
      ∀ place ∈ generic.1, generic.2 ≤ listStart code offset generic := by
  unfold listStart
  cases generic.1 with
  | none => exact ⟨Nat.le_refl _, fun _ given => by cases given⟩
  | some place => exact ⟨Nat.le_trans low (Nat.le_add_right ..), fun _ _ => Nat.le_add_right ..⟩

theorem listStart_append_left {generic : Option (Nat × Nat) × Nat} (inside : listStart code offset generic < code.length)
    (rest : Text) : listStart (code ++ rest) offset generic = listStart code offset generic := by
  unfold listStart at inside ⊢
  split
  · next given =>
    rw [if_pos given] at inside
    exact skipBlanks_append_left inside rest
  · next none =>
    rw [if_neg none] at inside
    exact skipBlanks_append_left inside rest

end

theorem tailBetween_append_left {s : Source} {generic list : Option (Nat × Nat)} {afterList : Nat}
    (inside : (tailBetween s generic list afterList).stop < s.length)
    (first : ∀ place ∈ generic, place.2 ≤ s.length) (second : ∀ place ∈ list, place.2 ≤ s.length) (t : Source) :
    tailBetween (s ++ t) generic list afterList = tailBetween s generic list afterList := by
  have le : afterList ≤ s.code.length := Nat.le_of_lt (Nat.lt_of_le_of_lt (Nat.le_add_right ..) inside)
  have short : ((s.code.drop afterList).takeWhile fun c => c != '\x7b' && c != ';').length <
      (s.code.drop afterList).length := by
    rw [List.length_drop]
    exact Nat.lt_sub_of_add_lt (by rwa [Nat.add_comm])
  have rest : ((s ++ t).code.drop afterList).takeWhile (fun c => c != '\x7b' && c != ';') =
      (s.code.drop afterList).takeWhile fun c => c != '\x7b' && c != ';' := by
    rw [Source.code_append, List.drop_append_of_le_length le, Text.takeWhile_append_of_lt short]
  unfold tailBetween
  dsimp only
  rw [rest]
  congr 1
  · cases generic with
    | none => rfl
    | some place => simp only [Source.slice_append_left (first place rfl)]
  · cases list with
    | none => rfl
    | some place => simp only [Option.map_some, Source.slice_append_left (second place rfl)]

/-- The tail of a heading that ends in front of the seam is the same, whatever follows. -/
theorem headingTail_append_left {s : Source} {name : Text} {offset : Nat} {tail : HeadingTail}
    (h : headingTail s name offset = .ok tail) (t : Source) :
    headingTail (s ++ t) name offset = .ok tail ∧ tail.stop < s.length := by
  rw [headingTail_eq] at h
  split at h
  · cases h
  · next generic found =>
    split at h
    · cases h
    · next list found' =>
      split at h
      · cases h
      · next room =>
        cases h
        have stop : (tailBetween s generic.1 list.1 list.2).stop < s.length := Nat.not_le.1 room
        obtain ⟨low, first⟩ := bracketed_bounds found
        obtain ⟨low', second⟩ := bracketed_bounds found'
        obtain ⟨start, next⟩ := listStart_bounds low
        have after : list.2 < s.length := Nat.lt_of_le_of_lt (Nat.le_add_right ..) stop
        have between : listStart s.code offset generic < s.length := Nat.lt_of_le_of_lt low' after
        have before : skipBlanks s.code offset < s.length := Nat.lt_of_le_of_lt start between
        refine ⟨?_, stop⟩
        rw [headingTail_eq, Source.code_append, skipBlanks_append_left before, bracketed_append_left found before]
        dsimp only
        rw [listStart_append_left between, bracketed_append_left found' between]
        dsimp only
        rw [tailBetween_append_left stop _ _ t, if_neg]
        · rw [List.length_append]
          exact Nat.not_le.2 (Nat.lt_of_lt_of_le stop (Nat.le_add_right ..))
        · exact fun place given =>
            Nat.le_of_lt (Nat.lt_trans (first place given) (Nat.lt_of_le_of_lt (next place given) between))
        · exact fun place given => Nat.le_of_lt (Nat.lt_trans (second place given) after)

/-- The tail of a heading ends behind its name. -/
theorem headingTail_stop_ge {document : Source} {name : Text} {offset : Nat} {tail : HeadingTail}
    (h : headingTail document name offset = .ok tail) : offset ≤ tail.stop := by
  rw [headingTail_eq] at h
  split at h
  · cases h
  · next generic found =>
    split at h
    · cases h
    · next list found' =>
      split at h
      · cases h
      · cases h
        calc offset ≤ skipBlanks document.code offset := Nat.le_add_right ..
          _ ≤ listStart document.code offset generic := (listStart_bounds (bracketed_bounds found).1).1
          _ ≤ list.2 := (bracketed_bounds found').1
          _ ≤ _ := Nat.le_add_right ..

section
variable {code : Text} {offset : Nat} {rest : Text}

theorem skipBlanks_front (inside : skipBlanks (code ++ rest) offset < code.length) :
    skipBlanks code offset = skipBlanks (code ++ rest) offset := by
  unfold skipBlanks Text.leadingBlanks at inside ⊢
  rw [List.drop_append_of_le_length (by omega)] at inside ⊢
  have short : ((code.drop offset ++ rest).takeWhile blank).length < (code.drop offset).length := by
    rw [List.length_drop]
    omega
  rw [Text.takeWhile_front short]

theorem bracketed_front {opener closer : Char} {found : Option (Nat × Nat) × Nat}
    (h : bracketed opener closer (code ++ rest) offset = .ok found) (inside : found.2 < code.length) :
    bracketed opener closer code offset = .ok found := by
  have low := (bracketed_bounds h).1
  unfold bracketed at h ⊢
  obtain ⟨c, cs, here⟩ := List.exists_cons_of_ne_nil (List.drop_eq_nil_iff.not.2 (Nat.not_le.2
    (Nat.lt_of_le_of_lt low inside)))
  have more : (code ++ rest).drop offset = c :: cs ++ rest := by
    rw [List.drop_append_of_le_length (by omega), here]
  have size := congrArg List.length here
  rw [List.length_drop] at size
  simp only [here, more, List.cons_append, List.head?_cons] at h ⊢
  split at h
  · next opens =>
    rw [if_pos opens]
    split at h
    · cases h
    · next i closes =>
      cases h
      rw [closing?_front (s := c :: cs) closes (by simp only at inside; omega)]
  · next other =>
    rw [if_neg other]
    exact h

theorem listStart_front {generic : Option (Nat × Nat) × Nat}
    (inside : listStart (code ++ rest) offset generic < code.length) :
    listStart code offset generic = listStart (code ++ rest) offset generic := by
  unfold listStart at inside ⊢
  split
  · next given =>
    rw [if_pos given] at inside
    exact skipBlanks_front inside
  · next none =>
    rw [if_neg none] at inside
    exact skipBlanks_front inside

end

theorem bracketed_unopened {opener closer : Char} {code : Text} {offset after : Nat}
    (h : bracketed opener closer code offset = .ok (none, after)) : after = offset := by
  unfold bracketed at h
  dsimp only at h
  split at h
  · split at h
    · cases h
    · cases h
  · cases h
    rfl

/-- The tail of a heading that ends in front of a seam is read off what stands in front of the seam. -/
theorem headingTail_front {s t : Source} {name : Text} {offset : Nat} {tail : HeadingTail}
    (h : headingTail (s ++ t) name offset = .ok tail) (inside : tail.stop < s.length) :
    headingTail s name offset = .ok tail := by
  rw [headingTail_eq] at h
  split at h
  · cases h
  · next generic found =>
    split at h
    · cases h
    · next list found' =>
      split at h
      · cases h
      · next room =>
        cases h
        obtain ⟨low, first⟩ := bracketed_bounds found
        obtain ⟨low', second⟩ := bracketed_bounds found'
        obtain ⟨start, next⟩ := listStart_bounds low
        have after : list.2 < s.length := Nat.lt_of_le_of_lt (Nat.le_add_right ..) inside
        have between : listStart (s ++ t).code offset generic < s.length := Nat.lt_of_le_of_lt low' after
        have before : skipBlanks (s ++ t).code offset < s.length := Nat.lt_of_le_of_lt start between
        have passed : generic.2 < s.length := by
          obtain ⟨place | place, past⟩ := generic
          · rw [bracketed_unopened found]
            exact before
          · exact Nat.lt_of_le_of_lt (next place rfl) between
        -- the rest of the heading ends in front of the seam, too
        have run : (s.code.drop list.2).takeWhile (fun c => c != '\x7b' && c != ';') =
            ((s ++ t).code.drop list.2).takeWhile fun c => c != '\x7b' && c != ';' := by
          unfold tailBetween at inside
          dsimp only at inside
          rw [Source.code_append, List.drop_append_of_le_length (Nat.le_of_lt after)] at inside ⊢
          apply Text.takeWhile_front
          rw [List.length_drop]
          exact Nat.lt_sub_of_add_lt (by rwa [Nat.add_comm])
        have stop : (tailBetween s generic.1 list.1 list.2).stop < s.length := by
          unfold tailBetween at inside ⊢
          dsimp only at inside ⊢
          rwa [run]
        have same : tailBetween (s ++ t) generic.1 list.1 list.2 = tailBetween s generic.1 list.1 list.2 :=
          tailBetween_append_left stop
            (fun place given => Nat.le_of_lt (Nat.lt_trans (first place given) passed))
            (fun place given => Nat.le_of_lt (Nat.lt_trans (second place given) after)) t
        have start' : skipBlanks s.code offset = skipBlanks (s ++ t).code offset := skipBlanks_front before
        have between' : listStart s.code offset generic = listStart (s ++ t).code offset generic :=
          listStart_front between
        have read : bracketed '<' '>' s.code (skipBlanks s.code offset) = .ok generic :=
          start' ▸ bracketed_front found passed
        have read' : bracketed '(' ')' s.code (listStart s.code offset generic) = .ok list :=
          between' ▸ bracketed_front found' after
        rw [headingTail_eq, read]
        dsimp only
        rw [read']
        dsimp only
        rw [same]
        exact if_neg (Nat.not_le.2 stop)

end EndpointSurvey
