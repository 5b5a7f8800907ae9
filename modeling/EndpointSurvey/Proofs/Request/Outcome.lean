/-
How a filling ends, whatever its progress so far: with a result of one kind if a condition holds, and with an error of
another kind if it does not. Fillings run one after another end well when all of them do.

Main statements: `Ends.bind` and `Ends.mapM` (fillings run one after another), `Skeleton.ends_members`,
`Skeleton.ends_entries` and `Skeleton.ends_texts` (the lists of a request's parts).
-/
import EndpointSurvey.Request.Synthesis
import Mathlib.Data.List.Forall2

namespace EndpointSurvey

namespace Filling

variable {α β : Type}

/-- The filling ends with a good result from every progress if `ok` holds, and else with a bad error. -/
structure Ends (x : Filling α) (ok : Prop) (good : α → Prop) (bad : RequestError → Prop) : Prop where
  succeeds : ok → ∀ s, ∃ a s', x.run.run s = (.ok a, s') ∧ good a
  fails : ¬ ok → ∀ s, ∃ e s', x.run.run s = (.error e, s') ∧ bad e

theorem run_bind (x : Filling α) (f : α → Filling β) (s : Progress) :
    (x >>= f).run.run s = match x.run.run s with
      | (.ok a, s') => (f a).run.run s'
      | (.error e, s') => (.error e, s') := by
  rw [ExceptT.run_bind, StateT.run_bind]
  rcases x.run.run s with ⟨e | a, s'⟩ <;> rfl

namespace Ends

variable {x : Filling α} {f : α → Filling β} {ok ok' next : Prop} {good good' : α → Prop} {result : β → Prop}
  {bad bad' : RequestError → Prop}

theorem pure {a : α} (h : good a) : (Pure.pure a : Filling α).Ends True good bad :=
  ⟨fun _ s => ⟨a, s, rfl, h⟩, fun no => (no trivial).elim⟩

theorem throw {e : RequestError} (h : bad e) : (MonadExcept.throw e : Filling α).Ends False good bad :=
  ⟨False.elim, fun _ s => ⟨e, s, rfl, h⟩⟩

theorem imp (h : x.Ends ok good bad) (same : ok ↔ ok') (better : ∀ a, good a → good' a)
    (worse : ∀ e, bad e → bad' e) : x.Ends ok' good' bad' := by
  constructor
  · intro yes s
    obtain ⟨a, s', run, h⟩ := h.succeeds (same.2 yes) s
    exact ⟨a, s', run, better a h⟩
  · intro no s
    obtain ⟨e, s', run, h⟩ := h.fails (fun yes => no (same.1 yes)) s
    exact ⟨e, s', run, worse e h⟩

theorem bind (first : x.Ends ok good bad) (rest : ∀ a, good a → (f a).Ends next result bad) :
    (x >>= f).Ends (ok ∧ next) result bad := by
  constructor
  · rintro ⟨yes, after⟩ s
    obtain ⟨a, s', run, h⟩ := first.succeeds yes s
    rw [run_bind, run]
    exact (rest a h).succeeds after s'
  · intro no s
    by_cases yes : ok
    · obtain ⟨a, s', run, h⟩ := first.succeeds yes s
      rw [run_bind, run]
      exact (rest a h).fails (fun after => no ⟨yes, after⟩) s'
    · obtain ⟨e, s', run, h⟩ := first.fails yes s
      rw [run_bind, run]
      exact ⟨e, s', rfl, h⟩

/-- what is done with the result of a filling cannot fail -/
theorem map (h : x.Ends ok good bad) {g : α → β} (then_ : ∀ a, good a → result (g a)) :
    (x >>= fun a => Pure.pure (g a)).Ends ok result bad :=
  (h.bind fun a good => Ends.pure (then_ a good)).imp (and_iff_left trivial) (fun _ => id) fun _ => id

theorem note (problem : Problem) : (Filling.note problem).Ends True (fun _ => True) bad :=
  ⟨fun _ _ => ⟨(), _, rfl, trivial⟩, fun no => (no trivial).elim⟩

theorem draw (picker : Picker) {first : Json} {others : List Json} {good : Json → Prop}
    (h : ∀ v ∈ first :: others, good v) : (Filling.draw picker first others).Ends True good bad :=
  ⟨fun _ _ => ⟨_, _, rfl, h _ (Picker.choose_mem ..)⟩, fun no => (no trivial).elim⟩

theorem mapM {list : List α} {f : α → Filling β} {ok : α → Prop} {good : α → β → Prop}
    (h : ∀ a ∈ list, (f a).Ends (ok a) (good a) bad) :
    (list.mapM f).Ends (∀ a ∈ list, ok a) (List.Forall₂ good list) bad := by
  induction list with
  | nil => exact (Ends.pure List.Forall₂.nil).imp (by simp) (fun _ => id) fun _ => id
  | cons a rest ih =>
    rw [List.mapM_cons]
    have others := ih fun b hb => h b (List.mem_cons_of_mem a hb)
    refine ((h a List.mem_cons_self).bind fun b hb => others.map fun bs hbs => List.Forall₂.cons hb hbs).imp ?_
      (fun _ => id) fun _ => id
    rw [List.forall_mem_cons]

end Ends

end Filling

namespace Skeleton

open Filling

variable {picker : Picker} {bad : RequestError → Prop}

/-! ## Skeletons filled -/

/-- a value that a slot may be filled with -/
def slotValues : Slot → List Json
  | .settled v => [v]
  | .pick first others => first :: others

theorem ends_slot {slot : Slot} {good : Json → Prop} (h : ∀ v ∈ slotValues slot, good v) :
    (fill picker (.slot slot)).Ends True good bad := by
  cases slot with
  | settled v =>
    rw [fill]
    exact Ends.pure (h v List.mem_cons_self)
  | pick first others =>
    rw [fill]
    exact Ends.draw picker h

theorem ends_noted {problem : Problem} {s : Skeleton} {ok : Prop} {good : Json → Prop}
    (h : (fill picker s).Ends ok good bad) : (fill picker (.noted problem s)).Ends ok good bad := by
  rw [fill]
  exact ((Ends.note problem).bind fun _ _ => h).imp (and_iff_right trivial) (fun _ => id) fun _ => id

theorem fill_item (s : Skeleton) : fill picker (.items [s]) = fill picker s >>= fun v => pure (.array [v]) := by
  simp only [fill, fillItems, bind_assoc, pure_bind]

theorem fill_member (key : Text) (s : Skeleton) :
    fill picker (.members [(key, s)]) = fill picker s >>= fun v => pure (.object [(key, v)]) := by
  simp only [fill, fillMembers, bind_assoc, pure_bind]
  rfl

theorem fillItems_eq (list : List Skeleton) : fillItems picker list = list.mapM (fill picker) := by
  induction list with
  | nil => rw [fillItems, List.mapM_nil]
  | cons s rest ih => simp only [fillItems, List.mapM_cons, ih]

theorem fillMembers_eq (list : List (Text × Skeleton)) :
    fillMembers picker list = list.mapM fun member => fill picker member.2 >>= fun v => pure (member.1, v) := by
  induction list with
  | nil => rw [fillMembers, List.mapM_nil]
  | cons member rest ih =>
    obtain ⟨key, s⟩ := member
    simp only [fillMembers, List.mapM_cons, ih, bind_assoc, pure_bind]

theorem fillEntries_eq (list : List Entry) :
    fillEntries picker list = list.mapM fun entry =>
      fill picker entry.value >>= fun v => pure ⟨entry.key, Sample.textOf v, entry.isFile⟩ := by
  induction list with
  | nil => rw [fillEntries, List.mapM_nil]
  | cons entry rest ih => simp only [fillEntries, List.mapM_cons, ih, bind_assoc, pure_bind]

theorem fillTexts_eq (list : List (Text × Skeleton)) :
    fillTexts picker list = list.mapM fun member => fill picker member.2 >>= fun v => pure (member.1, Sample.textOf v) := by
  induction list with
  | nil => rw [fillTexts, List.mapM_nil]
  | cons member rest ih =>
    obtain ⟨key, s⟩ := member
    simp only [fillTexts, List.mapM_cons, ih, bind_assoc, pure_bind]

/-! ## Lists of skeletons filled -/

/-- lists that agree place by place under two maps -/
theorem map_eq_of_forall₂ {α β γ : Type} {f : α → γ} {g : β → γ} {as : List α} {bs : List β}
    (same : List.Forall₂ (fun a b => f a = g b) as bs) : as.map f = bs.map g := by
  have : List.Forall₂ (· = ·) (as.map f) (bs.map g) :=
    List.forall₂_map_left_iff.2 (List.forall₂_map_right_iff.2 same)
  exact List.forall₂_eq_eq_eq ▸ this

variable {ι : Type} {list : List ι} {key : ι → Text} {value : ι → Skeleton} {ok : ι → Prop} {good : ι → Json → Prop}

theorem ends_members (h : ∀ a ∈ list, (fill picker (value a)).Ends (ok a) (good a) bad) :
    (fillMembers picker (list.map fun a => (key a, value a))).Ends (∀ a ∈ list, ok a)
      (List.Forall₂ (fun a pair => pair.1 = key a ∧ good a pair.2) list) bad := by
  rw [fillMembers_eq, List.mapM_map]
  exact Ends.mapM fun a ha => (h a ha).map fun v hv => ⟨rfl, hv⟩

theorem keys_of_members {members : List (Text × Json)} {good : ι → Text × Json → Prop}
    (same : List.Forall₂ (fun a pair => pair.1 = key a ∧ good a pair) list members) :
    members.map Prod.fst = list.map key :=
  (map_eq_of_forall₂ (same.imp fun _ _ written => written.1.symm)).symm

theorem ends_texts (h : ∀ a ∈ list, (fill picker (value a)).Ends (ok a) (fun _ => True) bad) :
    (fillTexts picker (list.map fun a => (key a, value a))).Ends (∀ a ∈ list, ok a) (fun _ => True) bad := by
  rw [fillTexts_eq, List.mapM_map]
  have each : ∀ a ∈ list, Ends (fill picker (value a) >>= fun v => pure (key a, Sample.textOf v)) (ok a)
      (fun _ => True) bad := fun a ha => (h a ha).map fun _ _ => trivial
  exact (Ends.mapM each).imp Iff.rfl (fun _ _ => trivial) fun _ => id

theorem ends_entry {key : Text} {s : Skeleton} {isFile : Bool} {ok : Prop} {good : Json → Prop}
    (h : (fill picker s).Ends ok good bad) :
    (fillEntries picker [⟨key, s, isFile⟩]).Ends ok (fun _ => True) bad := by
  simp only [fillEntries_eq, List.mapM_cons, List.mapM_nil, bind_assoc, pure_bind]
  exact h.map fun _ _ => trivial

theorem ends_entries {entries : ι → List Entry}
    (h : ∀ a ∈ list, (fillEntries picker (entries a)).Ends (ok a) (fun _ => True) bad) :
    (fillEntries picker (list.flatMap entries)).Ends (∀ a ∈ list, ok a) (fun _ => True) bad := by
  induction list with
  | nil =>
    rw [List.flatMap_nil, fillEntries]
    exact (Ends.pure trivial).imp (by simp) (fun _ => id) fun _ => id
  | cons a rest ih =>
    have others := ih fun b hb => h b (List.mem_cons_of_mem a hb)
    rw [List.flatMap_cons, fillEntries_eq, List.mapM_append, ← fillEntries_eq, ← fillEntries_eq]
    refine ((h a List.mem_cons_self).bind fun _ _ => others.map fun _ _ => trivial).imp ?_ (fun _ => id) fun _ => id
    rw [List.forall_mem_cons]

end Skeleton

end EndpointSurvey
