/-
The depth of brackets along a text, for one kind of bracket. It is what `closing?` follows: the bracket that a text
starts with is closed right after the first stretch that leaves nothing open.

Main statements:
- `closing?_eq_some_iff`: the closing bracket found is the one after a stretch of nesting zero;
- `nesting_inner_ne`: a stretch of nesting zero is not cut in two by an opening bracket whose own stretch has nesting
  zero, so that one place lies right inside only one pair of brackets.
-/
import EndpointSurvey.Source.Bracket

namespace EndpointSurvey

/-- the depth after a text that starts at a depth; nothing once a bracket closes that none has opened -/
def nesting (opener closer : Char) : Nat → Text → Option Nat
  | depth, [] => some depth
  | depth, c :: cs =>
    if c = opener then nesting opener closer (depth + 1) cs
    else if c = closer then
      match depth with
      | 0 => none
      | depth + 1 => nesting opener closer depth cs
    else nesting opener closer depth cs

/-- a text whose braces pair up -/
def bracesPair (t : Text) : Prop := nesting '\x7b' '\x7d' 0 t = some 0

instance (t : Text) : Decidable (bracesPair t) := by unfold bracesPair; infer_instance

section
variable {opener closer : Char}

theorem nesting_opener (depth : Nat) (t : Text) :
    nesting opener closer depth (opener :: t) = nesting opener closer (depth + 1) t := by
  simp [nesting]

theorem nesting_closer (distinct : opener ≠ closer) (depth : Nat) (t : Text) :
    nesting opener closer (depth + 1) (closer :: t) = nesting opener closer depth t := by
  simp [nesting, distinct.symm]

theorem nesting_closer_zero (distinct : opener ≠ closer) (t : Text) :
    nesting opener closer 0 (closer :: t) = none := by
  simp [nesting, distinct.symm]

theorem nesting_other {c : Char} (ho : c ≠ opener) (hc : c ≠ closer) (depth : Nat) (t : Text) :
    nesting opener closer depth (c :: t) = nesting opener closer depth t := by
  simp [nesting, ho, hc]

theorem nesting_append (depth : Nat) (s t : Text) :
    nesting opener closer depth (s ++ t) =
      (nesting opener closer depth s).bind fun depth => nesting opener closer depth t := by
  induction s generalizing depth with
  | nil => rfl
  | cons c cs ih =>
    simp only [List.cons_append, nesting]
    split
    · exact ih _
    · split
      · cases depth with
        | zero => rfl
        | succ depth => exact ih _
      · exact ih _

/-- A text that can be read from a depth can be read from a greater one, and ends as much deeper. -/
theorem nesting_add {depth final : Nat} (more : Nat) {t : Text} (h : nesting opener closer depth t = some final) :
    nesting opener closer (depth + more) t = some (final + more) := by
  induction t generalizing depth with
  | nil =>
    simp only [nesting, Option.some.injEq] at h ⊢
    omega
  | cons c cs ih =>
    simp only [nesting] at h ⊢
    split
    · next ho =>
      rw [if_pos ho] at h
      have := ih h
      rwa [Nat.add_right_comm] at this
    · next ho =>
      rw [if_neg ho] at h
      split
      · next hc =>
        rw [if_pos hc] at h
        cases depth with
        | zero => cases h
        | succ depth =>
          rw [Nat.add_right_comm]
          exact ih h
      · next hc =>
        rw [if_neg hc] at h
        exact ih h

theorem nesting_of_free {t : Text} (h : ∀ c ∈ t, c ≠ opener ∧ c ≠ closer) (depth : Nat) :
    nesting opener closer depth t = some depth := by
  induction t with
  | nil => rfl
  | cons c cs ih =>
    obtain ⟨ho, hc⟩ := h c (by simp)
    rw [nesting_other ho hc]
    exact ih fun d hd => h d (by simp [hd])

/-! ## Texts whose brackets pair up -/

/-- every bracket of the kind is closed in the text, and none closes that the text has not opened -/
def Paired (opener closer : Char) (t : Text) : Prop := nesting opener closer 0 t = some 0

namespace Paired

variable {s t : Text}

theorem append (hs : Paired opener closer s) (ht : Paired opener closer t) : Paired opener closer (s ++ t) := by
  rw [Paired, nesting_append, hs, Option.bind_some]
  exact ht

theorem of_free (h : ∀ c ∈ t, c ≠ opener ∧ c ≠ closer) : Paired opener closer t := nesting_of_free h 0

theorem cons {c : Char} (ho : c ≠ opener) (hc : c ≠ closer) (h : Paired opener closer t) :
    Paired opener closer (c :: t) := by
  rw [Paired, nesting_other ho hc]
  exact h

/-- Brackets around such a text pair up. -/
theorem group (distinct : opener ≠ closer) (h : Paired opener closer t) :
    Paired opener closer (opener :: (t ++ [closer])) := by
  rw [Paired, nesting_opener, nesting_append, nesting_add 1 h, Option.bind_some, nesting_closer distinct]
  rfl

theorem flatMap {α : Type} {f : α → Text} {as : List α} (h : ∀ a ∈ as, Paired opener closer (f a)) :
    Paired opener closer (as.flatMap f) := by
  induction as with
  | nil => rfl
  | cons a as ih =>
    rw [List.flatMap_cons]
    exact (h a List.mem_cons_self).append (ih fun b hb => h b (List.mem_cons_of_mem a hb))

end Paired

/-- **One place, one pair.** A stretch of nesting zero does not contain an opening bracket from which on the nesting is
zero again. -/
theorem nesting_inner_ne {outer inner : Text} (h : nesting opener closer 0 inner = some 0) :
    nesting opener closer 0 (outer ++ opener :: inner) ≠ some 0 := by
  intro whole
  rw [nesting_append] at whole
  cases first : nesting opener closer 0 outer with
  | none => rw [first] at whole; cases whole
  | some depth =>
    rw [first, Option.bind_some, nesting_opener] at whole
    have deeper := nesting_add (depth + 1) h
    rw [Nat.zero_add] at deeper
    rw [deeper] at whole
    cases whole

/-! ## The closing bracket -/

theorem closingFrom_of_nesting (distinct : opener ≠ closer) {depth offset : Nat} {inner rest : Text}
    (h : nesting opener closer depth inner = some 0) :
    closingFrom opener closer (depth + 1) offset (inner ++ closer :: rest) = some (offset + inner.length) := by
  induction inner generalizing depth offset with
  | nil =>
    cases h
    simp [closingFrom, distinct.symm]
  | cons c cs ih =>
    simp only [nesting] at h
    simp only [List.cons_append, closingFrom, List.length_cons]
    split
    · next ho =>
      rw [if_pos ho] at h
      rw [show ((depth : Int) + 1 + 1) = ((depth + 1 : Nat) : Int) + 1 by omega, ih h]
      congr 1
      omega
    · next ho =>
      rw [if_neg ho] at h
      split
      · next hc =>
        rw [if_pos hc] at h
        cases depth with
        | zero => cases h
        | succ depth =>
          rw [if_neg (by omega), show (((depth + 1 : Nat) : Int) + 1 - 1) = (depth : Int) + 1 by omega, ih h]
          congr 1
          omega
      · next hc =>
        rw [if_neg hc] at h
        rw [ih h]
        congr 1
        omega

theorem nesting_of_closingFrom {depth offset i : Nat} {t : Text}
    (h : closingFrom opener closer (depth + 1) offset t = some i) :
    ∃ inner rest, t = inner ++ closer :: rest ∧ i = offset + inner.length ∧
      nesting opener closer depth inner = some 0 := by
  induction t generalizing depth offset with
  | nil => cases h
  | cons c cs ih =>
    simp only [closingFrom] at h
    split at h
    · next ho =>
      rw [show ((depth : Int) + 1 + 1) = ((depth + 1 : Nat) : Int) + 1 by omega] at h
      obtain ⟨inner, rest, ht, hi, hn⟩ := ih h
      refine ⟨c :: inner, rest, by simp [ht], by simp [hi]; omega, ?_⟩
      rw [ho, nesting_opener]
      exact hn
    · next ho =>
      split at h
      · next hc =>
        split at h
        · next hd =>
          cases h
          have : depth = 0 := by omega
          subst this
          exact ⟨[], cs, by simp [hc], rfl, rfl⟩
        · next hd =>
          cases depth with
          | zero => exact absurd rfl hd
          | succ depth =>
            rw [show (((depth + 1 : Nat) : Int) + 1 - 1) = (depth : Int) + 1 by omega] at h
            obtain ⟨inner, rest, ht, hi, hn⟩ := ih h
            refine ⟨c :: inner, rest, by simp [ht], by simp [hi]; omega, ?_⟩
            rw [hc, nesting_closer fun e => ho (hc.trans e.symm)]
            exact hn
      · next hc =>
        obtain ⟨inner, rest, ht, hi, hn⟩ := ih h
        refine ⟨c :: inner, rest, by simp [ht], by simp [hi]; omega, ?_⟩
        rw [nesting_other ho hc]
        exact hn

/-- The bracket found is the one after a stretch in which all brackets pair up. -/
theorem closing?_eq_some_iff (distinct : opener ≠ closer) {t : Text} {i : Nat} :
    closing? opener closer (opener :: t) = some i ↔
      ∃ inner rest, t = inner ++ closer :: rest ∧ i = inner.length + 1 ∧
        nesting opener closer 0 inner = some 0 := by
  have start : closing? opener closer (opener :: t) = closingFrom opener closer ((0 : Nat) + 1) 1 t := by
    simp [closing?, closingFrom]
  rw [start]
  constructor
  · intro h
    obtain ⟨inner, rest, ht, hi, hn⟩ := nesting_of_closingFrom h
    exact ⟨inner, rest, ht, by omega, hn⟩
  · rintro ⟨inner, rest, rfl, rfl, hn⟩
    rw [closingFrom_of_nesting distinct hn]
    congr 1
    omega

/-- Where a bracket closes shows in the text up to there. -/
theorem closing?_of_take (distinct : opener ≠ closer) {t u : Text} {i : Nat} (head : t.head? = some opener)
    (h : closing? opener closer t = some i) (same : u.take (i + 1) = t.take (i + 1)) :
    closing? opener closer u = some i := by
  obtain ⟨t, rfl⟩ := List.head?_eq_some_iff.1 head
  obtain ⟨inner, rest, rfl, rfl, nest⟩ := (closing?_eq_some_iff distinct).1 h
  have front : u.take (inner.length + 1 + 1) = opener :: (inner ++ [closer]) := by
    rw [same, List.take_succ_cons, List.take_length_add_append]
    rfl
  have whole : u = opener :: (inner ++ closer :: u.drop (inner.length + 1 + 1)) := by
    conv => lhs; rw [← List.take_append_drop (inner.length + 1 + 1) u, front]
    simp
  rw [whole]
  exact (closing?_eq_some_iff distinct).2 ⟨inner, _, rfl, rfl, nest⟩

/-- A bracket is closed in a text that leaves nothing open. -/
theorem exists_closing (distinct : opener ≠ closer) {t : Text}
    (h : nesting opener closer 0 (opener :: t) = some 0) : ∃ i, closing? opener closer (opener :: t) = some i := by
  have down : ∀ (t : Text) (depth : Nat), nesting opener closer (depth + 1) t = some 0 →
      ∃ inner rest, t = inner ++ closer :: rest ∧ nesting opener closer depth inner = some 0 := by
    intro t
    induction t with
    | nil => intro depth h; cases h
    | cons c cs ih =>
      intro depth h
      by_cases ho : c = opener
      · rw [ho, nesting_opener] at h
        obtain ⟨inner, rest, ht, hn⟩ := ih (depth + 1) h
        refine ⟨c :: inner, rest, by simp [ht], ?_⟩
        rw [ho, nesting_opener]
        exact hn
      · by_cases hc : c = closer
        · rw [hc, nesting_closer distinct] at h
          cases depth with
          | zero => exact ⟨[], cs, by simp [hc], rfl⟩
          | succ depth =>
            obtain ⟨inner, rest, ht, hn⟩ := ih depth h
            refine ⟨c :: inner, rest, by simp [ht], ?_⟩
            rw [hc, nesting_closer distinct]
            exact hn
        · rw [nesting_other ho hc] at h
          obtain ⟨inner, rest, ht, hn⟩ := ih depth h
          refine ⟨c :: inner, rest, by simp [ht], ?_⟩
          rw [nesting_other ho hc]
          exact hn
  rw [nesting_opener] at h
  obtain ⟨inner, rest, ht, hn⟩ := down t 0 h
  exact ⟨inner.length + 1, (closing?_eq_some_iff distinct).2 ⟨inner, rest, ht, rfl, hn⟩⟩

end

end EndpointSurvey
