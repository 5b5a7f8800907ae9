/-
The way from a type up its bases, one base at a time, and the properties that are found on it.

Main statements: `IsWayUp.length_le` (a way up is no longer than the catalog has types), `lineageFrom_way` (the types
that are followed are such a way, up to a base that repeats or is not declared), `inheritedFrom_eq_ok` (of properties of
one name the first is kept, in its place), `propertiesOf_outcome` and `propertiesOf_inherits`.
-/
import EndpointSurvey.Catalog.Inheritance
import EndpointSurvey.Proofs.Entries
import EndpointSurvey.Proofs.Failing
import Mathlib.Data.List.Nodup
import Mathlib.Data.List.Perm.Subperm

namespace EndpointSurvey

namespace Ancestor

/-- a declared type with arguments for its parameters -/
def of (d : TypeDescriptor) (arguments : List Text) : Ancestor := ⟨d, .ofLists d.typeParameters arguments⟩

def name (a : Ancestor) : Text := a.descriptor.name

def properties (a : Ancestor) : List Property := a.descriptor.properties

@[simp] theorem name_of (d : TypeDescriptor) (arguments : List Text) : (of d arguments).name = d.name := rfl

end Ancestor

namespace Catalog

variable {c : Catalog} {first a b : Ancestor} {way : List Ancestor}

/-! ## The way up -/

/-- the type above another: what its base resolves to with the arguments put in, if that is declared -/
def above (c : Catalog) (a : Ancestor) : Except Template.Error (Option Ancestor) :=
  match a.descriptor.baseType with
  | none | some [] => pure none
  | some base => do
    let baseText ← a.bound.substitute base
    let resolved := c.resolve baseText
    pure (resolved.descriptor?.map (Ancestor.of · resolved.arguments))

theorem above_descriptor_mem (h : c.above a = .ok (some b)) : b.descriptor ∈ c.reachable := by
  unfold above at h
  split at h
  · cases h
  · cases h
  · obtain ⟨baseText, _, h⟩ := bind_eq_ok_iff.1 h
    obtain ⟨d, found, rfl⟩ := Option.map_eq_some_iff.1 (Except.ok.inj h)
    exact resolve_descriptor_mem found

/-- a way from a type up its bases on which no name stands twice -/
structure IsWayUp (c : Catalog) (first : Ancestor) (way : List Ancestor) : Prop where
  starts : way.head? = some first
  climbs : way.IsChain fun a b => c.above a = .ok (some b)
  distinct : (way.map (·.name)).Nodup

/-- The way goes no further: its last type has no declared base, or one whose name has been met. -/
def Ended (c : Catalog) (met : List Text) (way : List Ancestor) : Prop :=
  ∃ last ∈ way.getLast?, ∃ next, c.above last = .ok next ∧ ∀ base ∈ next, base.name ∈ met ++ way.map (·.name)

/-- The base at the end of the way cannot be read: a substitution in its text raises an error. -/
def Stuck (c : Catalog) (way : List Ancestor) (e : Template.Error) : Prop :=
  ∃ last ∈ way.getLast?, c.above last = .error e

theorem isWayUp_single (c : Catalog) (a : Ancestor) : c.IsWayUp a [a] := ⟨rfl, .singleton a, by simp⟩

theorem IsWayUp.cons (step : c.above a = .ok (some b)) (up : c.IsWayUp b way) (new : a.name ∉ way.map (·.name)) :
    c.IsWayUp a (a :: way) := by
  obtain ⟨rest, rfl⟩ := List.head?_eq_some_iff.1 up.starts
  exact ⟨rfl, .cons_cons step up.climbs, List.nodup_cons.2 ⟨new, up.distinct⟩⟩

theorem getLast?_cons_of_head? (starts : way.head? = some first) : (a :: way).getLast? = way.getLast? := by
  obtain ⟨rest, rfl⟩ := List.head?_eq_some_iff.1 starts
  rw [List.getLast?_cons_cons]

theorem Ended.cons {met : List Text} (ended : c.Ended (a.name :: met) way) (starts : way.head? = some first) :
    c.Ended met (a :: way) := by
  obtain ⟨last, atEnd, next, step, old⟩ := ended
  refine ⟨last, (getLast?_cons_of_head? starts).symm ▸ atEnd, next, step, ?_⟩
  intro base climbs
  have := old base climbs
  grind

theorem Stuck.cons {e : Template.Error} (stuck : c.Stuck way e) (starts : way.head? = some first) :
    c.Stuck (a :: way) e := by
  obtain ⟨last, atEnd, raised⟩ := stuck
  exact ⟨last, (getLast?_cons_of_head? starts).symm ▸ atEnd, raised⟩

theorem mem_reachable_of_climbs (climbs : (a :: way).IsChain fun a b => c.above a = .ok (some b)) :
    ∀ b ∈ way, b.descriptor ∈ c.reachable := by
  induction way generalizing a with
  | nil => exact fun b member => absurd member List.not_mem_nil
  | cons b rest ih =>
    obtain ⟨step, later⟩ := List.isChain_cons_cons.1 climbs
    exact List.forall_mem_cons.2 ⟨above_descriptor_mem step, ih later⟩

/-- A way up is no longer than the catalog and its fallbacks have types, but for the one it starts at. -/
theorem IsWayUp.length_le (up : c.IsWayUp first way) : way.length ≤ c.reachable.length + 1 := by
  obtain ⟨rest, rfl⟩ := List.head?_eq_some_iff.1 up.starts
  have distinct : (rest.map (·.descriptor)).Nodup := by
    refine List.Nodup.of_map (·.name) ?_
    rw [List.map_map]
    exact (List.nodup_cons.1 up.distinct).2
  have within : rest.map (·.descriptor) ⊆ c.reachable := by
    intro d member
    obtain ⟨b, onWay, rfl⟩ := List.mem_map.1 member
    exact mem_reachable_of_climbs up.climbs b onWay
  have := (distinct.subperm within).length_le
  rw [List.length_map] at this
  exact Nat.succ_le_succ this

theorem above_none (bare : a.descriptor.baseType = none ∨ a.descriptor.baseType = some []) : c.above a = .ok none := by
  unfold above
  rcases bare with bare | bare <;> rw [bare] <;> rfl

theorem above_error {base : Text} {e : Template.Error} (written : a.descriptor.baseType = some base) (given : base ≠ [])
    (raised : a.bound.substitute base = .error e) : c.above a = .error e := by
  unfold above
  rw [written]
  simp only [raised]
  rfl

theorem above_ok {base baseText : Text} (written : a.descriptor.baseType = some base) (given : base ≠ [])
    (put : a.bound.substitute base = .ok baseText) : c.above a =
      .ok ((c.resolve baseText).descriptor?.map (Ancestor.of · (c.resolve baseText).arguments)) := by
  unfold above
  rw [written]
  simp only [put]
  rfl

/-- **The types that are followed are a way up** of which no name has been met before, up to its end, or up to a base
whose text raises an error. -/
theorem lineageFrom_way (c : Catalog) (met : List Text) (d : TypeDescriptor) (arguments : List Text)
    (new : d.name ∉ met) : ∃ way, c.IsWayUp (.of d arguments) way ∧ (∀ a ∈ way, a.name ∉ met) ∧
      (c.lineageFrom met d arguments = .ok way ∧ c.Ended met way ∨
        ∃ e, c.lineageFrom met d arguments = .error e ∧ c.Stuck way e) := by
  fun_induction lineageFrom c met d arguments with
  | case1 met d arguments bound bare =>
    exact ⟨_, isWayUp_single c _, by simpa using new, .inl ⟨rfl, _, rfl, none, above_none (.inl bare), by simp⟩⟩
  | case2 met d arguments bound bare =>
    exact ⟨_, isWayUp_single c _, by simpa using new, .inl ⟨rfl, _, rfl, none, above_none (.inr bare), by simp⟩⟩
  | case3 met d arguments bound metHere base given written ih =>
    have given : base ≠ [] := given
    cases put : bound.substitute base with
    | error e =>
      exact ⟨_, isWayUp_single c _, by simpa using new, .inr ⟨e, rfl, _, rfl, above_error written given put⟩⟩
    | ok baseText =>
      have step := above_ok (c := c) (a := .of d arguments) written given put
      dsimp only [bind, Except.bind]
      split
      · next undeclared =>
        rw [undeclared] at step
        exact ⟨_, isWayUp_single c _, by simpa using new, .inl ⟨rfl, _, rfl, none, step, by simp⟩⟩
      · next next declared =>
        rw [declared] at step
        split
        · next old =>
          refine ⟨_, isWayUp_single c _, by simpa using new, .inl ⟨rfl, _, rfl, _, step, ?_⟩⟩
          rintro base ⟨⟩
          have old : next.name ∈ d.name :: met := old
          simpa [or_comm] using old
        · next unmet =>
          obtain ⟨way, up, fresh, outcome⟩ := ih baseText next declared unmet unmet
          have newOnWay : d.name ∉ way.map (·.name) := by
            intro member
            obtain ⟨a, onWay, same⟩ := List.mem_map.1 member
            exact fresh a onWay (same ▸ List.mem_cons_self)
          have unmetAll : ∀ a ∈ way, a.name ∉ met := by
            intro a onWay old
            exact fresh a onWay (List.mem_cons_of_mem _ old)
          refine ⟨_, .cons step up newOnWay, List.forall_mem_cons.2 ⟨new, unmetAll⟩, ?_⟩
          rcases outcome with ⟨followed, ended⟩ | ⟨e, raised, stuck⟩
          · exact .inl ⟨by rw [followed]; rfl, ended.cons up.starts⟩
          · exact .inr ⟨e, by rw [raised], stuck.cons up.starts⟩

/-! ## The properties on it -/

/-- what the types on a way declare, with their arguments, the base-most type first -/
def declaredOn (way : List Ancestor) : List (Property × TypeArguments) :=
  way.reverse.flatMap fun a => a.properties.map (·, a.bound)

theorem mem_declaredOn {q : Property} {bound : TypeArguments} :
    (q, bound) ∈ declaredOn way ↔ ∃ a ∈ way, q ∈ a.properties ∧ a.bound = bound := by
  simp [declaredOn]

/-- Of properties of one name the first is kept, in its place, with the arguments put in. -/
theorem inheritedFrom_eq_ok {names : List Text} {entries : List (Property × TypeArguments)} {ps : List Property}
    (h : inheritedFrom names entries = .ok ps) :
    names ++ ps.map (·.name) = Entries.addKeys names (entries.map (·.1.name)) ∧
      ∀ p ∈ ps, p.name ∉ names ∧ ∃ q bound, entries.find? (·.1.name = p.name) = some (q, bound) ∧
        bound.substitute q.typeText = .ok p.typeText ∧ p = { q with typeText := p.typeText } := by
  fun_induction inheritedFrom names entries generalizing ps with
  | case1 names => cases h; exact ⟨List.append_nil _, by simp⟩
  | case2 names q bound rest met ih =>
    have met : q.name ∈ names := by simpa using met
    obtain ⟨order, kept⟩ := ih h
    have step : Entries.addKeys names (q.name :: rest.map (·.1.name)) = Entries.addKeys names (rest.map (·.1.name)) :=
      congrArg (Entries.addKeys · _) (if_pos met)
    refine ⟨order.trans step.symm, ?_⟩
    intro p member
    obtain ⟨new, found⟩ := kept p member
    have other : q.name ≠ p.name := fun same => new (same ▸ met)
    exact ⟨new, by simpa [other] using found⟩
  | case3 names q bound rest unmet ih =>
    obtain ⟨typeText, put, h⟩ := bind_eq_ok_iff.1 h
    obtain ⟨others, later, h⟩ := bind_eq_ok_iff.1 h
    cases h
    have unmet : q.name ∉ names := by simpa using unmet
    have step : Entries.addKeys names (q.name :: rest.map (·.1.name)) =
        Entries.addKeys (names ++ [q.name]) (rest.map (·.1.name)) :=
      congrArg (Entries.addKeys · _) (if_neg unmet)
    obtain ⟨order, kept⟩ := ih later
    refine ⟨?_, List.forall_mem_cons.2 ⟨⟨unmet, q, bound, by simp, put, rfl⟩, ?_⟩⟩
    · rw [List.map_cons, List.map_cons, step, ← order, List.append_assoc]
      rfl
    · intro p member
      obtain ⟨new, found⟩ := kept p member
      obtain ⟨before, other⟩ := not_or.1 (mt List.mem_append.2 new)
      have other : q.name ≠ p.name := fun same => other (List.mem_singleton.2 same.symm)
      exact ⟨before, by simpa [other] using found⟩

theorem inheritedFrom_error_mem {names : List Text} {entries : List (Property × TypeArguments)} {e : Template.Error}
    (h : inheritedFrom names entries = .error e) : ∃ entry ∈ entries, entry.2.substitute entry.1.typeText = .error e := by
  fun_induction inheritedFrom names entries with
  | case1 => cases h
  | case2 names q bound rest met ih =>
    obtain ⟨entry, member, raised⟩ := ih h
    exact ⟨entry, List.mem_cons_of_mem _ member, raised⟩
  | case3 names q bound rest unmet ih =>
    cases put : bound.substitute q.typeText with
    | error e' =>
      rw [put] at h
      cases h
      exact ⟨(q, bound), List.mem_cons_self, put⟩
    | ok typeText =>
      rw [put] at h
      cases later : inheritedFrom (names ++ [q.name]) rest with
      | ok others => simp [later, bind, Except.bind, pure, Except.pure] at h
      | error e' =>
        simp only [later, bind, Except.bind, Except.error.injEq] at h
        obtain ⟨entry, member, raised⟩ := ih (later.trans (congrArg _ h))
        exact ⟨entry, List.mem_cons_of_mem _ member, raised⟩

/-- The properties are those the types on a way declare: each name once, in the place and with the definition that it
has in the base-most type that declares it. -/
structure Inherits (way : List Ancestor) (ps : List Property) : Prop where
  distinct : (ps.map (·.name)).Nodup
  declared : ∀ name, name ∈ ps.map (·.name) ↔ ∃ a ∈ way, name ∈ a.properties.map (·.name)
  ordered : ps.map (·.name) = Entries.addKeys [] ((declaredOn way).map (·.1.name))
  baseMost : ∀ p ∈ ps, ∃ lower a higher q, way = lower ++ a :: higher ∧
    (∀ b ∈ higher, p.name ∉ b.properties.map (·.name)) ∧ a.properties.find? (·.name = p.name) = some q ∧
    a.bound.substitute q.typeText = .ok p.typeText ∧ p = { q with typeText := p.typeText }

/-- A text on a way cannot be read: that of the base at its end, or, the way being at its end, that of a property. -/
def Raises (c : Catalog) (way : List Ancestor) (e : Template.Error) : Prop :=
  c.Stuck way e ∨ c.Ended [] way ∧ ∃ a ∈ way, ∃ q ∈ a.properties, a.bound.substitute q.typeText = .error e

theorem find?_declaredOn {name : Text} {q : Property} {bound : TypeArguments}
    (h : (declaredOn way).find? (·.1.name = name) = some (q, bound)) : ∃ lower a higher, way = lower ++ a :: higher ∧
      (∀ b ∈ higher, name ∉ b.properties.map (·.name)) ∧ a.properties.find? (·.name = name) = some q ∧ a.bound = bound := by
  unfold declaredOn at h
  rw [List.find?_flatMap, List.findSome?_eq_some_iff] at h
  obtain ⟨higher, a, lower, turned, found, unmet⟩ := h
  refine ⟨lower.reverse, a, higher.reverse, ?_, ?_, ?_⟩
  · rw [← List.reverse_reverse way, turned]
    simp
  · intro b member declares
    obtain ⟨p, listed, rfl⟩ := List.mem_map.1 declares
    have := unmet b (List.mem_reverse.1 member)
    simp only [List.find?_map, Option.map_eq_none_iff, List.find?_eq_none] at this
    simpa using this p listed
  · rw [List.find?_map, Option.map_eq_some_iff] at found
    obtain ⟨p, first, same⟩ := found
    cases same
    exact ⟨first, rfl⟩

theorem inherits_of_inheritedFrom {ps : List Property} (h : inheritedFrom [] (declaredOn way) = .ok ps) :
    Inherits way ps := by
  obtain ⟨order, kept⟩ := inheritedFrom_eq_ok h
  have order : ps.map (·.name) = Entries.addKeys [] ((declaredOn way).map (·.1.name)) := by simpa using order
  refine ⟨?_, ?_, order, ?_⟩
  · rw [order]
    exact Entries.nodup_addKeys List.nodup_nil _
  · intro name
    rw [order, Entries.mem_addKeys]
    constructor
    · intro found
      obtain ⟨⟨q, bound⟩, listed, rfl⟩ := List.mem_map.1 (found.resolve_left List.not_mem_nil)
      obtain ⟨a, onWay, declares, _⟩ := mem_declaredOn.1 listed
      exact ⟨a, onWay, List.mem_map.2 ⟨q, declares, rfl⟩⟩
    · rintro ⟨a, onWay, declares⟩
      obtain ⟨q, listed, rfl⟩ := List.mem_map.1 declares
      exact .inr (List.mem_map.2 ⟨(q, a.bound), mem_declaredOn.2 ⟨a, onWay, listed, rfl⟩, rfl⟩)
  · intro p member
    obtain ⟨_, q, bound, found, put, same⟩ := kept p member
    obtain ⟨lower, a, higher, splits, unmet, first, rfl⟩ := find?_declaredOn found
    exact ⟨lower, a, higher, q, splits, unmet, first, put, same⟩

/-- The properties of a declared type are found on a way up to its end, or a substitution on it raised an error. -/
theorem propertiesOf_outcome (c : Catalog) {r : ResolvedType} {d : TypeDescriptor} (declared : r.descriptor? = some d) :
    ∃ way, c.IsWayUp (.of d r.arguments) way ∧ ((∃ ps, c.propertiesOf r = .ok ps ∧ c.Ended [] way ∧ Inherits way ps) ∨
      ∃ e, c.propertiesOf r = .error e ∧ c.Raises way e) := by
  obtain ⟨way, up, _, outcome⟩ := lineageFrom_way c [] d r.arguments List.not_mem_nil
  refine ⟨way, up, ?_⟩
  rcases outcome with ⟨followed, ended⟩ | ⟨e, raised, stuck⟩
  · have found : c.propertiesOf r = inheritedFrom [] (declaredOn way) := by
      simp only [propertiesOf, declared, lineage, followed]
      rfl
    cases outcome : inheritedFrom [] (declaredOn way) with
    | ok ps => exact .inl ⟨ps, found.trans outcome, ended, inherits_of_inheritedFrom outcome⟩
    | error e =>
      obtain ⟨⟨q, bound⟩, listed, raised⟩ := inheritedFrom_error_mem outcome
      obtain ⟨a, onWay, declares, rfl⟩ := mem_declaredOn.1 listed
      exact .inr ⟨e, found.trans outcome, .inr ⟨ended, a, onWay, q, declares, raised⟩⟩
  · have failed : c.propertiesOf r = .error e := by
      simp only [propertiesOf, declared, lineage, raised]
      rfl
    exact .inr ⟨e, failed, .inl stuck⟩

/-- **A type's properties with those it inherits**, in every catalog and whatever its bases are. A type that is not
declared has none. Else there is a way up from it on which no name stands twice; it is no longer than the catalog and
its fallbacks have types, but for the first. Either the properties are found: the way goes up to a base that is not
declared or whose name stands on it, every name that is declared on it comes out once, the base-most types first, and
has the place and the definition of the base-most type that declares it. Or a substitution raised an error: in the text
of the base at the end of the way, or, at its end, in that of a property on it. -/
theorem propertiesOf_inherits (c : Catalog) (r : ResolvedType) :
    match r.descriptor? with
    | none => c.propertiesOf r = .ok []
    | some d => ∃ way, c.IsWayUp (.of d r.arguments) way ∧ way.length ≤ c.reachable.length + 1 ∧
        ((∃ ps, c.propertiesOf r = .ok ps ∧ c.Ended [] way ∧ Inherits way ps) ∨
          ∃ e, c.propertiesOf r = .error e ∧ c.Raises way e) := by
  cases declared : r.descriptor? with
  | none =>
    simp only [propertiesOf, declared]
    rfl
  | some d =>
    obtain ⟨way, up, outcome⟩ := propertiesOf_outcome c declared
    exact ⟨way, up, up.length_le, outcome⟩

/-- two types that are each other's base, and one that starts below them -/
def roundabout : Catalog :=
  .ofList [
    ⟨"Low", .classType, [⟨"Id", "int", none, none, false⟩, ⟨"Own", "T", none, none, false⟩], some "Mid<T>", ["T"], [],
      none⟩,
    ⟨"Mid", .classType, [⟨"Own", "E[]", none, none, false⟩], some "Task<Top>", ["E"], [], none⟩,
    ⟨"Top", .classType, [⟨"Tag", "string", none, none, false⟩], some "Mid<int>", [], [], none⟩]

example : (roundabout.propertiesOf (roundabout.resolve "Low<Guid>")).map (·.map fun p => (p.name, p.typeText)) =
    .ok [("Tag", "string"), ("Own", "Guid[]"), ("Id", "int")] := by decide +kernel

end Catalog

end EndpointSurvey
