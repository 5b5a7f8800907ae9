/-
What lower-casing leaves alone: a mark between the capitals and the small letters is no character's small letter, and
what is no capital stays, digits included.

Main statements: `not_mem_lower`, `mem_lower` and `lowerChar_of_digit`.
-/
import EndpointSurvey.Text.LowerCase
import Mathlib.Data.List.Basic

namespace EndpointSurvey

/-- a character between the capitals and the small letters -/
def betweenCases (c : Char) : Bool := 90 < c.toNat && c.toNat < 97

theorem eq_of_toLower {c d : Char} (mark : betweenCases d = true) (h : c.toLower = d) : c = d := by
  simp only [betweenCases, Bool.and_eq_true, decide_eq_true_eq] at mark
  unfold Char.toLower at h
  split at h
  · next capital =>
    have value : c.val + 32 = d.val := congrArg Char.val h
    have lower : 65 ≤ c.val.toNat := capital.1
    have upper : c.val.toNat ≤ 90 := capital.2
    have total := congrArg UInt32.toNat value
    have bound : d.val.toNat < 97 := mark.2
    rw [UInt32.toNat_add] at total
    simp at lower upper total
    omega
  · exact h

theorem le_small_letter {run : CaseRun} (h : run ∈ caseRuns) : (97 : Int) ≤ run.first + run.shift := by
  have all : (caseRuns.all fun run => decide ((97 : Int) ≤ run.first + run.shift)) = true := by decide +kernel
  exact of_decide_eq_true (List.all_eq_true.1 all run h)

theorem not_betweenCases_ofNat {n : Nat} (h : 97 ≤ n) : betweenCases (Char.ofNat n) = false := by
  by_cases valid : n.isValidChar
  · have point : (Char.ofNat n).toNat = n := by
      rw [Char.ofNat, dif_pos valid]
      rfl
    rw [betweenCases, point, Bool.and_eq_false_iff, decide_eq_false_iff_not, decide_eq_false_iff_not]
    omega
  · rw [Char.ofNat, dif_neg valid]
    rfl

/-- No small letter of a character above the first 128 stands between the cases. -/
theorem not_betweenCases_lowerChar {c : Char} (high : ¬ c.toNat < 128) : betweenCases (lowerChar c) = false := by
  rw [lowerChar, if_neg high]
  dsimp only
  split
  · next run found =>
    have small := le_small_letter (List.mem_of_find?_eq_some found)
    have within := List.find?_some found
    simp only [Bool.and_eq_true, decide_eq_true_eq] at within
    exact not_betweenCases_ofNat (by omega)
  · simp only [betweenCases, Bool.and_eq_false_iff, decide_eq_false_iff_not]
    omega

/-- What stands between the cases is in the lower-cased text only if it is in the text. -/
theorem not_mem_lower {d : Char} (mark : betweenCases d = true) {t : Text} (h : d ∉ t) : d ∉ t.lower := by
  have other : ∀ {c}, betweenCases c = false → d ≠ c := by
    rintro c same rfl
    rw [mark] at same
    cases same
  have go : ∀ (t : Text) (afterCased : Bool), d ∉ t → d ∉ Text.lowerFrom afterCased t := by
    intro t
    induction t with
    | nil => exact fun _ h => h
    | cons c cs ih =>
      intro afterCased h
      rw [List.mem_cons, not_or] at h
      rw [Text.lowerFrom]
      have rest := fun after => ih after h.2
      split
      · exact List.not_mem_cons_of_ne_of_not_mem (fun same => h.1 (eq_of_toLower mark same.symm).symm) (rest _)
      · next high =>
        split
        · refine List.not_mem_cons_of_ne_of_not_mem (other ?_) (rest _)
          split <;> decide
        · split
          · exact List.not_mem_cons_of_ne_of_not_mem (other (by decide))
              (List.not_mem_cons_of_ne_of_not_mem (other (by decide)) (rest _))
          · exact List.not_mem_cons_of_ne_of_not_mem (other (not_betweenCases_lowerChar high)) (rest _)
  exact go t false h

/-- A character of the first 128 that is no capital is kept. -/
theorem mem_lower {d : Char} (low : d.toNat < 128) (kept : d.toLower = d) {t : Text} (h : d ∈ t) : d ∈ t.lower := by
  have go : ∀ (t : Text) (afterCased : Bool), d ∈ t → d ∈ Text.lowerFrom afterCased t := by
    intro t
    induction t with
    | nil => exact fun _ h => h
    | cons c cs ih =>
      intro afterCased h
      rw [Text.lowerFrom]
      rcases List.mem_cons.1 h with rfl | later
      · rw [if_pos low, kept]
        exact List.mem_cons_self
      · have rest := fun after => ih after later
        split
        · exact List.mem_cons_of_mem _ (rest _)
        · split
          · exact List.mem_cons_of_mem _ (rest _)
          · split
            · exact List.mem_cons_of_mem _ (List.mem_cons_of_mem _ (rest _))
            · exact List.mem_cons_of_mem _ (rest _)
  exact go t false h

/-! ## Digits -/

/-- No digit is a letter. -/
theorem isAlpha_of_digit {c : Char} (digit : decimalDigit c = true) : c.isAlpha = false := by
  refine Bool.eq_false_iff.2 fun letter => ?_
  have bounds := isAlpha_bounds letter
  rw [decimalDigit, digitValue?, if_pos (by omega)] at digit
  split at digit
  · next plain =>
    have ends := Bool.and_eq_true_iff.1 (show (decide (48 ≤ c.toNat) && decide (c.toNat ≤ 57)) = true from plain)
    have high := of_decide_eq_true ends.2
    omega
  · cases digit

/-- No run of capitals meets a run of digits. -/
theorem lowerChar_of_digit {c : Char} (high : ¬ c.toNat < 128) (digit : decimalDigit c = true) : lowerChar c = c := by
  have apart : (caseRuns.all fun run => digitZeros.all fun base => run.last < base || base + 10 ≤ run.first) = true := by
    decide +kernel
  rw [decimalDigit, digitValue?, if_neg high, Option.isSome_map, List.find?_isSome] at digit
  obtain ⟨base, member, within⟩ := digit
  rw [Bool.and_eq_true, decide_eq_true_eq, decide_eq_true_eq] at within
  have none : caseRuns.find? (fun run => run.first ≤ c.toNat && c.toNat ≤ run.last &&
      (c.toNat - run.first) % run.step == 0) = none := by
    refine List.find?_eq_none.2 fun run hrun inside => ?_
    simp only [Bool.and_eq_true, decide_eq_true_eq] at inside
    have beside := List.all_eq_true.1 (List.all_eq_true.1 apart run hrun) base member
    rw [Bool.or_eq_true, decide_eq_true_eq, decide_eq_true_eq] at beside
    omega
  rw [lowerChar, if_neg high]
  dsimp only
  rw [none]

end EndpointSurvey
