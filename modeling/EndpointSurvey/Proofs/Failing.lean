/-
How computations of several steps fail: at the first step that does.

Main statements: `failsAs_bind` (a sequence fails in its first part, or in the second after the first), `fails_mapM` (a
pass over a list fails if it does at some place) and `mapM_eq_error_iff` (its error is that of the first such place).
-/
import EndpointSurvey.Proofs.Diagnostic.TracedValue
import Mathlib.Data.List.Basic

namespace EndpointSurvey

variable {α β ε ε' : Type} {P : ε → Prop}

/-- the computation ends in an error of a kind -/
def FailsAs (P : ε → Prop) : Except ε α → Prop
  | .error e => P e
  | .ok _ => False

/-- the computation ends in an error -/
def Fails : Except ε α → Prop := FailsAs fun _ => True

@[simp] theorem failsAs_error (e : ε) : FailsAs P (.error e : Except ε α) ↔ P e := Iff.rfl

@[simp] theorem failsAs_ok (a : α) : ¬ FailsAs P (.ok a : Except ε α) := id

@[simp] theorem failsAs_pure (a : α) : ¬ FailsAs P (pure a : Except ε α) := id

@[simp] theorem failsAs_throw (e : ε) : FailsAs P (throw e : Except ε α) ↔ P e := Iff.rfl

theorem failsAs_iff {x : Except ε α} : FailsAs P x ↔ ∃ e, x = .error e ∧ P e := by
  cases x <;> simp

theorem failsAs_or {Q : ε → Prop} {x : Except ε α} :
    FailsAs (fun e => P e ∨ Q e) x ↔ FailsAs P x ∨ FailsAs Q x := by
  cases x <;> simp

theorem failsAs_bind {x : Except ε α} {f : α → Except ε β} :
    FailsAs P (x >>= f) ↔ FailsAs P x ∨ ∃ a, x = .ok a ∧ FailsAs P (f a) := by
  cases x with
  | error e => simp [bind, Except.bind]
  | ok a => simp [bind, Except.bind]

/-- a check that fails, in front of a computation -/
theorem failsAs_unless {c : Prop} [Decidable c] {e : ε} {x : Except ε α} :
    FailsAs P (if c then (throw e >>= fun (_ : Unit) => x) else x) ↔ c ∧ P e ∨ ¬ c ∧ FailsAs P x := by
  by_cases h : c
  · simp [h, failsAs_bind]
  · simp [h]

theorem unless_eq_ok_iff {c : Prop} [Decidable c] {e : ε} {x : Except ε α} {a : α} :
    (if c then (throw e >>= fun (_ : Unit) => x) else x) = .ok a ↔ ¬ c ∧ x = .ok a := by
  by_cases h : c
  · simp only [h, if_true, not_true_eq_false, false_and, iff_false]
    exact fun same => nomatch same
  · simp [h]

theorem bind_eq_ok_iff {x : Except ε α} {f : α → Except ε β} {b : β} :
    (x >>= f) = .ok b ↔ ∃ a, x = .ok a ∧ f a = .ok b := by
  cases x with
  | error e => simp [bind, Except.bind]
  | ok a => simp [bind, Except.bind]

theorem failsAs_mapError {x : Except ε' α} {g : ε' → ε} :
    FailsAs P (x.mapError g) ↔ FailsAs (fun e => P (g e)) x := by
  cases x <;> rfl

theorem mapError_eq_ok_iff {x : Except ε' α} {g : ε' → ε} {a : α} : x.mapError g = .ok a ↔ x = .ok a := by
  cases x <;> simp [Except.mapError]

@[simp] theorem fails_error (e : ε) : Fails (.error e : Except ε α) := trivial

@[simp] theorem not_fails_ok (a : α) : ¬ Fails (.ok a : Except ε α) := id

@[simp] theorem not_fails_pure (a : α) : ¬ Fails (pure a : Except ε α) := id

theorem fails_bind {x : Except ε α} {f : α → Except ε β} :
    Fails (x >>= f) ↔ Fails x ∨ ∃ a, x = .ok a ∧ Fails (f a) := failsAs_bind

theorem not_fails_iff {x : Except ε α} : ¬ Fails x ↔ ∃ a, x = .ok a := by
  cases x <;> simp

/-- A pass over a list fails if it does so at some place. -/
theorem fails_mapM {f : α → Except ε β} {as : List α} : Fails (as.mapM f) ↔ ∃ a ∈ as, Fails (f a) := by
  induction as with
  | nil => simp [pure, Except.pure]
  | cons a rest ih =>
    rw [List.mapM_cons, fails_bind, List.exists_mem_cons_iff, ← ih]
    cases first : f a with
    | error e => simp
    | ok value =>
      simp only [not_fails_ok, false_or, Except.ok.injEq, exists_eq_left']
      rw [fails_bind]
      simp [pure, Except.pure]

/-- What a pass over a list gives comes from a place of the list. -/
theorem mem_of_mapM {f : α → Except ε β} {as : List α} {bs : List β} (h : as.mapM f = .ok bs) {b : β}
    (member : b ∈ bs) : ∃ a ∈ as, f a = .ok b := by
  induction as generalizing bs with
  | nil =>
    cases h
    cases member
  | cons a rest ih =>
    rw [List.mapM_cons] at h
    obtain ⟨value, first, h⟩ := bind_eq_ok_iff.1 h
    obtain ⟨values, others, h⟩ := bind_eq_ok_iff.1 h
    cases h
    rcases List.mem_cons.1 member with rfl | later
    · exact ⟨a, List.mem_cons_self, first⟩
    · obtain ⟨a, there, same⟩ := ih others later
      exact ⟨a, List.mem_cons_of_mem _ there, same⟩

/-- A pass over a list ends in the error of the first place that has one. -/
theorem mapM_eq_error_iff {f : α → Except ε β} {as : List α} {e : ε} : as.mapM f = .error e ↔
    ∃ before a rest, as = before ++ a :: rest ∧ (∀ b ∈ before, ∃ value, f b = .ok value) ∧ f a = .error e := by
  induction as with
  | nil => simp [pure, Except.pure]
  | cons a rest ih =>
    rw [List.mapM_cons]
    simp only [List.cons_eq_append_iff]
    cases first : f a with
    | error e' =>
      constructor
      · intro same
        cases same
        exact ⟨[], a, rest, .inl ⟨rfl, rfl⟩, by simp, first⟩
      · rintro ⟨before, b, others, ⟨rfl, same⟩ | ⟨earlier, rfl, -⟩, passed, fails⟩
        · cases same
          cases first.symm.trans fails
          rfl
        · obtain ⟨value, made⟩ := passed a List.mem_cons_self
          cases first.symm.trans made
    | ok value =>
      have through : (do pure (value :: (← rest.mapM f)) : Except ε (List β)) = .error e ↔ rest.mapM f = .error e := by
        cases rest.mapM f <;> simp [bind, Except.bind, pure, Except.pure]
      refine through.trans (ih.trans ?_)
      constructor
      · rintro ⟨before, b, others, rfl, passed, fails⟩
        exact ⟨a :: before, b, others, .inr ⟨before, rfl, rfl⟩,
          List.forall_mem_cons.2 ⟨⟨value, first⟩, passed⟩, fails⟩
      · rintro ⟨before, b, others, ⟨rfl, same⟩ | ⟨earlier, rfl, same⟩, passed, fails⟩
        · cases same
          cases first.symm.trans fails
        · exact ⟨earlier, b, others, same, (List.forall_mem_cons.1 passed).2, fails⟩

/-! ## Traced computations -/

/-- the value of a sequence of traced steps that may fail -/
theorem value_run_bind {x : ExceptT ε Traced α} {f : α → ExceptT ε Traced β} :
    (x >>= f).run.value = x.run.value >>= fun a => (f a).run.value := by
  show (Traced.value (x.run >>= ExceptT.bindCont f)) = _
  rw [Traced.value_bind]
  cases x.run.value <;> rfl

theorem value_run_lift {x : Traced α} : (ExceptT.lift x : ExceptT ε Traced α).run.value = .ok x.value := rfl

end EndpointSurvey
