/-
The values of traced computations, apart from their events, and their events, apart from their values.

Main statements: `value_mapList` and `value_filterMapList` (a traced pass over a list is a plain pass over its values),
`events_mapList` (its events are those of its steps, in order), `mem_warnings_filterMapList`.
-/
import EndpointSurvey.Diagnostic.Event

namespace EndpointSurvey

namespace Traced

variable {α β : Type}

@[simp] theorem value_pure (a : α) : (pure a : Traced α).value = a := rfl

@[simp] theorem value_bind (t : Traced α) (f : α → Traced β) : (t >>= f).value = (f t.value).value := rfl

@[simp] theorem value_unreported (t : Traced α) : t.unreported.value = t.value := rfl

@[simp] theorem value_mapList (f : α → Traced β) (as : List α) :
    (mapList f as).value = as.map fun a => (f a).value := by
  induction as with
  | nil => rfl
  | cons a as ih =>
    simp only [mapList, value_bind, value_pure, List.map_cons]
    rw [ih]

@[simp] theorem value_filterMapList (f : α → Traced (Option β)) (as : List α) :
    (filterMapList f as).value = as.filterMap fun a => (f a).value := by
  simp [filterMapList, List.filterMap_map]

theorem ext {t u : Traced α} (value : t.value = u.value) (events : t.events = u.events) : t = u := by
  obtain ⟨_, _⟩ := t
  cases value
  cases events
  rfl

@[simp] theorem events_pure (a : α) : (pure a : Traced α).events = [] := rfl

@[simp] theorem events_bind (t : Traced α) (f : α → Traced β) :
    (t >>= f).events = t.events ++ (f t.value).events := rfl

@[simp] theorem events_emit (e : Event) : (emit e).events = [e] := rfl

@[simp] theorem events_mapList (f : α → Traced β) (as : List α) :
    (mapList f as).events = as.flatMap fun a => (f a).events := by
  induction as with
  | nil => rfl
  | cons a as ih =>
    simp only [mapList, events_bind, events_pure, List.append_nil, List.flatMap_cons]
    rw [ih]

/-- A pass of which every step finds something and reports nothing is a plain map. -/
theorem filterMapList_pure {γ : Type} {f : α → Traced (Option β)} {text : γ → α} {g : γ → β} {as : List γ}
    (h : ∀ a ∈ as, f (text a) = pure (some (g a))) : filterMapList f (as.map text) = pure (as.map g) := by
  refine ext ?_ ?_
  · rw [value_filterMapList, value_pure]
    induction as with
    | nil => rfl
    | cons a as ih =>
      obtain ⟨here, later⟩ := List.forall_mem_cons.1 h
      rw [List.map_cons, List.filterMap_cons_some (by rw [here]; rfl), ih later, List.map_cons]
  · rw [filterMapList, events_bind, events_mapList, events_pure, events_pure, List.append_nil,
      List.flatMap_eq_nil_iff, List.forall_mem_map]
    intro a member
    rw [h a member]
    rfl

/-- What is warned of at one place of a list is warned of in a pass over the list. -/
theorem mem_warnings_filterMapList {f : α → Traced (Option β)} {as : List α} {a : α} (ha : a ∈ as) {w : Warning}
    (hw : w ∈ (f a).warnings) : w ∈ (filterMapList f as).warnings := by
  rw [filterMapList, warnings_bind, warnings_pure, List.append_nil, warnings, events_mapList, List.mem_filterMap]
  obtain ⟨e, he, carried⟩ := List.mem_filterMap.1 hw
  exact ⟨e, List.mem_flatMap.2 ⟨a, ha, he⟩, carried⟩

end Traced

end EndpointSurvey
