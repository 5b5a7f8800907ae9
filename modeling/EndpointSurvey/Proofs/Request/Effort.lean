/-
What filling adds to its progress, and what its values look like, for every picker: a skeleton alone decides how often
is drawn, which problems are noted and which shape the value has, as long as the entries of each pool have one shape. Two
values have one shape if they differ in scalars only, and nowhere in the kind of a scalar.

Main statements:
- `Json.shape_array` and `Json.shape_object`: lists and objects keep their length, their keys and the order of both;
- `Adds.bind` and `Adds.mapM`: fillings run one after another add up;
- `Skeleton.adds_fill`: a skeleton of even slots adds its effort, and its value has its shape;
- `Skeleton.adds_texts` and `Skeleton.adds_entries`: the lists of a request's parts keep their names and marks.
-/
import EndpointSurvey.Json.Basic
import EndpointSurvey.Proofs.Entries
import EndpointSurvey.Proofs.Request.Outcome

namespace EndpointSurvey

/-! ## Shapes -/

namespace Json

mutual

/-- the value with an empty string, a zero or a falsehood for each scalar -/
def shape : Json → Json
  | .null => .null
  | .bool _ => .bool false
  | .int _ => .int 0
  | .float _ => .float (.finite false 0 0)
  | .string _ => .string []
  | .array items => .array (shapeItems items)
  | .object members => .object (shapeMembers members)

def shapeItems : List Json → List Json
  | [] => []
  | item :: rest => shape item :: shapeItems rest

def shapeMembers : List (Text × Json) → List (Text × Json)
  | [] => []
  | (key, item) :: rest => (key, shape item) :: shapeMembers rest

end

@[simp] theorem shape_array (items : List Json) : shape (.array items) = .array (items.map shape) := by
  have each : ∀ items, shapeItems items = items.map shape := by
    intro items
    induction items with
    | nil => rfl
    | cons item rest ih => rw [shapeItems, ih, List.map_cons]
  rw [shape, each]

@[simp] theorem shape_object (members : List (Text × Json)) :
    shape (.object members) = .object (members.map (Prod.map id shape)) := by
  have each : ∀ members, shapeMembers members = members.map (Prod.map id shape) := by
    intro members
    induction members with
    | nil => rfl
    | cons member rest ih => rw [shapeMembers, ih, List.map_cons]; rfl
  rw [shape, each]

end Json

/-! ## Entries whose values are changed -/

namespace Entries

variable {α β : Type}

theorem insert_map (f : α → β) (key : Text) (value : α) (entries : Entries α) :
    (insert key value entries).map (Prod.map id f) = insert key (f value) (entries.map (Prod.map id f)) := by
  induction entries with
  | nil => rfl
  | cons entry rest ih =>
    obtain ⟨k, v⟩ := entry
    by_cases same : k = key
    · simp [insert, same]
    · simp [insert, same, ih]

theorem ofList_map (f : α → β) (pairs : List (Text × α)) :
    (ofList pairs).map (Prod.map id f) = ofList (pairs.map (Prod.map id f)) := by
  have from_ : ∀ before : Entries α,
      (pairs.foldl (fun acc pair => insert pair.1 pair.2 acc) before).map (Prod.map id f) =
        (pairs.map (Prod.map id f)).foldl (fun acc pair => insert pair.1 pair.2 acc) (before.map (Prod.map id f)) := by
    induction pairs with
    | nil => exact fun before => rfl
    | cons pair rest ih =>
      intro before
      rw [List.foldl_cons, ih, insert_map, List.map_cons, List.foldl_cons]
      rfl
  exact from_ []

end Entries

/-! ## Progress -/

namespace Progress

instance : Zero Progress := ⟨⟨0, []⟩⟩

/-- the draws and the problems of two stretches of a filling -/
instance : Add Progress := ⟨fun a b => ⟨a.draws + b.draws, a.problems ++ b.problems⟩⟩

@[simp] theorem problems_add (a b : Progress) : (a + b).problems = a.problems ++ b.problems := rfl

theorem ext {a b : Progress} (draws : a.draws = b.draws) (problems : a.problems = b.problems) : a = b := by
  cases a
  cases b
  cases draws
  cases problems
  rfl

theorem zero_add (a : Progress) : 0 + a = a := ext (Nat.zero_add _) rfl

theorem add_zero (a : Progress) : a + 0 = a := ext rfl (List.append_nil _)

theorem add_assoc (a b c : Progress) : a + b + c = a + (b + c) :=
  ext (Nat.add_assoc ..) (List.append_assoc ..)

/-- the problems of stretches are those of each, in order -/
theorem problems_sum (list : List Progress) : list.sum.problems = list.flatMap Progress.problems := by
  induction list with
  | nil => rfl
  | cons a rest ih => rw [List.sum_cons, problems_add, ih, List.flatMap_cons]

end Progress

/-! ## What fillings add -/

namespace Filling

variable {α β : Type}

/-- whenever the filling succeeds, it has added just this to its progress, and its result is good -/
def Adds (x : Filling α) (effort : Progress) (good : α → Prop) : Prop :=
  ∀ s a s', x.run.run s = (.ok a, s') → s' = s + effort ∧ good a

namespace Adds

variable {x : Filling α} {f : α → Filling β} {effort next : Progress} {good good' : α → Prop} {result : β → Prop}

theorem pure {a : α} (h : good a) : (Pure.pure a : Filling α).Adds 0 good := by
  intro s b s' run
  cases run
  exact ⟨(Progress.add_zero s).symm, h⟩

theorem throw {e : RequestError} : (MonadExcept.throw e : Filling α).Adds effort good := by
  intro s a s' run
  cases run

theorem imp (h : x.Adds effort good) (better : ∀ a, good a → good' a) : x.Adds effort good' := by
  intro s a s' run
  obtain ⟨same, h⟩ := h s a s' run
  exact ⟨same, better a h⟩

theorem bind (first : x.Adds effort good) (rest : ∀ a, good a → (f a).Adds next result) :
    (x >>= f).Adds (effort + next) result := by
  intro s b s' run
  rw [run_bind] at run
  cases reached : x.run.run s with
  | mk outcome between =>
    rw [reached] at run
    cases outcome with
    | error e => cases run
    | ok a =>
      obtain ⟨same, h⟩ := first s a between reached
      obtain ⟨same', h'⟩ := rest a h between b s' run
      refine ⟨?_, h'⟩
      calc s' = between + next := same'
        _ = s + effort + next := by rw [same]
        _ = s + (effort + next) := Progress.add_assoc ..

/-- what is done with the result of a filling adds nothing -/
theorem map (h : x.Adds effort good) {g : α → β} (then_ : ∀ a, good a → result (g a)) :
    (x >>= fun a => Pure.pure (g a)).Adds effort result := by
  have both := h.bind (f := fun a => Pure.pure (g a)) fun a good => Adds.pure (then_ a good)
  rwa [Progress.add_zero] at both

theorem note (problem : Problem) : (Filling.note problem).Adds ⟨0, [problem]⟩ (fun _ => True) := by
  intro s a s' run
  cases run
  exact ⟨rfl, trivial⟩

theorem draw (picker : Picker) {first : Json} {others : List Json} {good : Json → Prop}
    (h : ∀ v ∈ first :: others, good v) : (Filling.draw picker first others).Adds ⟨1, []⟩ good := by
  intro s a s' run
  cases run
  refine ⟨?_, h _ (Picker.choose_mem ..)⟩
  exact Progress.ext rfl (List.append_nil _).symm

theorem mapM {list : List α} {f : α → Filling β} {effort : α → Progress} {good : α → β → Prop}
    (h : ∀ a ∈ list, (f a).Adds (effort a) (good a)) :
    (list.mapM f).Adds (list.map effort).sum (List.Forall₂ good list) := by
  induction list with
  | nil => exact Adds.pure List.Forall₂.nil
  | cons a rest ih =>
    rw [List.mapM_cons, List.map_cons, List.sum_cons]
    have others := ih fun b hb => h b (List.mem_cons_of_mem a hb)
    exact (h a List.mem_cons_self).bind fun b hb => others.map fun bs hbs => List.Forall₂.cons hb hbs

end Adds

end Filling

/-! ## Skeletons -/

/-- whatever is picked for the slot, its value has one shape -/
def Slot.Even : Slot → Prop
  | .settled _ => True
  | .pick first others => ∀ v ∈ others, v.shape = first.shape

namespace Skeleton

mutual

/-- what filling the skeleton adds: a draw for each open slot, and the problems noted in it -/
def effort : Skeleton → Progress
  | slot (.settled _) => 0
  | slot (.pick _ _) => ⟨1, []⟩
  | cut => 0
  | items list => effortItems list
  | members list => effortMembers list
  | noted problem s => ⟨0, [problem]⟩ + effort s
  | failed _ => 0

def effortItems : List Skeleton → Progress
  | [] => 0
  | s :: rest => effort s + effortItems rest

def effortMembers : List (Text × Skeleton) → Progress
  | [] => 0
  | (_, s) :: rest => effort s + effortMembers rest

end

mutual

/-- the shape of the skeleton's values -/
def shape : Skeleton → Json
  | slot (.settled v) => v.shape
  | slot (.pick first _) => first.shape
  | cut => .null
  | items list => .array (shapeItems list)
  | members list => .object (Entries.ofList (shapeMembers list))
  | noted _ s => shape s
  | failed _ => .null

def shapeItems : List Skeleton → List Json
  | [] => []
  | s :: rest => shape s :: shapeItems rest

def shapeMembers : List (Text × Skeleton) → List (Text × Json)
  | [] => []
  | (key, s) :: rest => (key, shape s) :: shapeMembers rest

end

theorem effort_items (list : List Skeleton) : effort (.items list) = (list.map effort).sum := by
  rw [effort]
  induction list with
  | nil => rfl
  | cons s rest ih => rw [effortItems, ih, List.map_cons, List.sum_cons]

theorem effort_members (list : List (Text × Skeleton)) :
    effort (.members list) = (list.map fun member => effort member.2).sum := by
  rw [effort]
  induction list with
  | nil => rfl
  | cons member rest ih => rw [effortMembers, ih, List.map_cons, List.sum_cons]

theorem shape_items (list : List Skeleton) : shape (.items list) = .array (list.map shape) := by
  rw [shape]
  congr 1
  induction list with
  | nil => rfl
  | cons s rest ih => rw [shapeItems, ih, List.map_cons]

theorem shape_members (list : List (Text × Skeleton)) :
    shape (.members list) = .object (Entries.ofList (list.map (Prod.map id shape))) := by
  rw [shape]
  congr 2
  induction list with
  | nil => rfl
  | cons member rest ih => rw [shapeMembers, ih, List.map_cons]; rfl

/-- every slot and every problem of the skeleton is of a kind -/
inductive Each (slotOk : Slot → Prop) (problemOk : Problem → Prop) : Skeleton → Prop where
  | slot {s : Slot} (h : slotOk s) : Each slotOk problemOk (.slot s)
  | cut : Each slotOk problemOk .cut
  | items {list : List Skeleton} (h : ∀ s ∈ list, Each slotOk problemOk s) : Each slotOk problemOk (.items list)
  | members {list : List (Text × Skeleton)} (h : ∀ member ∈ list, Each slotOk problemOk member.2) :
      Each slotOk problemOk (.members list)
  | noted {problem : Problem} {s : Skeleton} (h : problemOk problem) (rest : Each slotOk problemOk s) :
      Each slotOk problemOk (.noted problem s)
  | failed {e : Template.Error} : Each slotOk problemOk (.failed e)

variable {slotOk : Slot → Prop} {problemOk problemOk' : Problem → Prop} {s : Skeleton} {picker : Picker}

theorem Each.imp (h : s.Each slotOk problemOk) (weaker : ∀ {problem}, problemOk problem → problemOk' problem) :
    s.Each slotOk problemOk' := by
  induction h with
  | slot h => exact .slot h
  | cut => exact .cut
  | items _ ih => exact .items ih
  | members _ ih => exact .members ih
  | noted h _ ih => exact .noted (weaker h) ih
  | failed => exact .failed

/-- The problems that filling notes are of the kind. -/
theorem Each.problems (h : s.Each slotOk problemOk) : ∀ problem ∈ s.effort.problems, problemOk problem := by
  induction h with
  | @slot s _ => cases s <;> rw [effort] <;> exact nofun
  | cut => rw [effort]; exact nofun
  | items _ ih =>
    intro problem member
    rw [effort_items, Progress.problems_sum, List.flatMap_map] at member
    obtain ⟨s, inside, member⟩ := List.mem_flatMap.1 member
    exact ih s inside problem member
  | members _ ih =>
    intro problem member
    rw [effort_members, Progress.problems_sum, List.flatMap_map] at member
    obtain ⟨s, inside, member⟩ := List.mem_flatMap.1 member
    exact ih s inside problem member
  | noted h _ ih =>
    intro problem member
    rw [effort, Progress.problems_add] at member
    rcases List.mem_append.1 member with first | rest
    · rw [List.mem_singleton.1 first]
      exact h
    · exact ih problem rest
  | failed => rw [effort]; exact nofun

open Filling

/-- **A skeleton decides the course of its filling**: whatever is picked, the draws, the problems noted and the shape of
the value are its own. -/
theorem adds_fill (even : s.Each Slot.Even problemOk) : (fill picker s).Adds s.effort (·.shape = s.shape) := by
  induction even with
  | @slot s h =>
    cases s with
    | settled v =>
      rw [fill, effort, shape]
      exact Adds.pure rfl
    | pick first others =>
      rw [fill, effort, shape]
      exact Adds.draw picker (List.forall_mem_cons.2 ⟨rfl, h⟩)
  | cut =>
    rw [fill, effort, shape]
    exact Adds.pure (by rw [Json.shape])
  | @items list _ ih =>
    rw [fill, effort_items, shape_items, fillItems_eq]
    refine (Adds.mapM ih).map fun values same => ?_
    rw [Json.shape_array, map_eq_of_forall₂ (same.imp fun _ _ h => h.symm)]
  | @members list _ ih =>
    rw [fill, effort_members, shape_members, fillMembers_eq]
    have each : ∀ member ∈ list, Adds (fill picker member.2 >>= fun v => pure (member.1, v)) member.2.effort
        (fun pair => member.map id shape = pair.map id Json.shape) :=
      fun member inside => (ih member inside).map fun v same => Prod.ext rfl same.symm
    refine (Adds.mapM each).map fun pairs same => ?_
    rw [Json.shape_object, Entries.ofList_map, map_eq_of_forall₂ same]
  | noted _ _ ih =>
    rw [fill, effort, shape]
    exact (Adds.note _).bind fun _ _ => ih
  | failed =>
    rw [fill]
    exact Adds.throw

/-- The texts of even skeletons keep their keys. -/
theorem adds_texts {list : List (Text × Skeleton)} (even : ∀ member ∈ list, member.2.Each Slot.Even problemOk) :
    (fillTexts picker list).Adds (list.map fun member => member.2.effort).sum
      (fun texts => texts.map Prod.fst = list.map Prod.fst) := by
  rw [fillTexts_eq]
  have each : ∀ member ∈ list, Adds (fill picker member.2 >>= fun v => pure (member.1, Sample.textOf v))
      member.2.effort (fun pair => member.1 = pair.1) :=
    fun member inside => (adds_fill (even member inside)).map fun _ _ => rfl
  exact (Adds.mapM each).imp fun texts same => (map_eq_of_forall₂ same).symm

/-- The fields of even skeletons keep their names and marks. -/
theorem adds_entries {list : List Entry} (even : ∀ entry ∈ list, entry.value.Each Slot.Even problemOk) :
    (fillEntries picker list).Adds (list.map fun entry => entry.value.effort).sum
      (fun fields => fields.map (fun f => (f.name, f.isFile)) = list.map fun entry => (entry.key, entry.isFile)) := by
  rw [fillEntries_eq]
  have each : ∀ entry ∈ list, Adds (fill picker entry.value >>= fun v =>
      pure (⟨entry.key, Sample.textOf v, entry.isFile⟩ : FormField)) entry.value.effort
      (fun f => (entry.key, entry.isFile) = (f.name, f.isFile)) :=
    fun entry inside => (adds_fill (even entry inside)).map fun _ _ => rfl
  exact (Adds.mapM each).imp fun fields same => (map_eq_of_forall₂ same).symm

end Skeleton

end EndpointSurvey
