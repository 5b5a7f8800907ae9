/-
What keeps a request from being made: the fault of an environment, or a type argument with a backslash in it that no
type can be put in for.

Main statements: `Catalog.propertiesOf_error` (the error of a type is that of one of its arguments),
`EnvironmentDraft.validate_badAuthority` and `synthesize_outcome`.
-/
import EndpointSurvey.Document.Reading
import EndpointSurvey.Proofs.Catalog.Lineage
import EndpointSurvey.Proofs.Environment.Outcome
import EndpointSurvey.Proofs.Request.Building

namespace EndpointSurvey

/-- the error of a type argument that cannot be put in -/
def Template.Refuses (argument : Text) (cause : Template.Error) : Prop :=
  '\\' ∈ argument ∧ Template.ofText? argument = .error cause

theorem Except.bind_error {ε α β : Type} {x : Except ε α} {f : α → Except ε β} {e : ε} (h : x >>= f = .error e) :
    x = .error e ∨ ∃ a, x = .ok a ∧ f a = .error e := by
  cases x with
  | error e' => cases h; exact .inl rfl
  | ok a => exact .inr ⟨a, rfl, h⟩

theorem Template.refuses_of_error {argument : Text} {cause : Template.Error}
    (h : Template.ofText? argument = .error cause) : Template.Refuses argument cause := by
  refine ⟨?_, h⟩
  by_contra plain
  rw [Template.ofText?_plain argument plain] at h
  cases h

theorem TypeArguments.substitute_error {bound : TypeArguments} {t : Text} {cause : Template.Error}
    (h : bound.substitute t = .error cause) : ∃ argument, Template.Refuses argument cause := by
  unfold substitute at h
  induction bound generalizing t with
  | nil => cases h
  | cons entry rest ih =>
    rw [List.foldlM_cons] at h
    rcases Except.bind_error h with first | ⟨_, _, others⟩
    · rcases Except.bind_error first with refused | ⟨_, _, replaced⟩
      · exact ⟨entry.2, Template.refuses_of_error refused⟩
      · cases replaced
    · exact ih others

def ResolvedType.isObject : ResolvedType → Bool
  | .object .. => true
  | _ => false

namespace Catalog

theorem inheritedFrom_error {names : List Text} {properties : List (Property × TypeArguments)} {cause : Template.Error}
    (h : inheritedFrom names properties = .error cause) : ∃ argument, Template.Refuses argument cause := by
  fun_induction inheritedFrom names properties with
  | case1 => cases h
  | case2 names p bound rest _ ih => exact ih h
  | case3 names p bound rest _ ih =>
    rcases Except.bind_error h with refused | ⟨typeText, _, h⟩
    · exact TypeArguments.substitute_error refused
    · rcases Except.bind_error h with later | ⟨others, _, done⟩
      · exact ih later
      · cases done

theorem lineageFrom_error {c : Catalog} {met : List Text} {d : TypeDescriptor} {arguments : List Text}
    {cause : Template.Error} (h : c.lineageFrom met d arguments = .error cause) :
    ∃ argument, Template.Refuses argument cause := by
  fun_induction lineageFrom c met d arguments with
  | case1 => cases h
  | case2 => cases h
  | case3 met d arguments bound _ base _ _ ih =>
    rcases Except.bind_error h with refused | ⟨baseText, _, h⟩
    · exact TypeArguments.substitute_error refused
    · dsimp only at h
      split at h
      · cases h
      · next next resolves =>
        split at h
        · cases h
        · next new =>
          rcases Except.bind_error h with later | ⟨rest, _, done⟩
          · exact ih baseText next resolves new later
          · cases done

/-- The properties of a type fail only by an argument, which has a backslash in it. -/
theorem propertiesOf_error {c : Catalog} {r : ResolvedType} {cause : Template.Error}
    (h : c.propertiesOf r = .error cause) : ∃ argument, Template.Refuses argument cause := by
  unfold propertiesOf at h
  split at h
  · cases h
  · rcases Except.bind_error h with up | ⟨ancestors, _, inherited⟩
    · exact lineageFrom_error up
    · exact inheritedFrom_error inherited

/-- An object type is entered itself, if nothing encloses it. -/
theorem entered_object {c : Catalog} {r : ResolvedType} (object : r.isObject = true) : c.Entered [] r r := by
  cases r with
  | object name nullable d arguments => exact .here (by simp [ResolvedType.CutOff, Skeleton.depthLimit])
  | _ => cases object

end Catalog

namespace EnvironmentDraft

/-- Only a base URL that cannot be taken apart gives its own fault; every other one is that of an environment. -/
theorem validate_badAuthority {d : EnvironmentDraft} {url : Url.Fault} (h : d.validate = .error (.badAuthority url)) :
    Url.Parts.ofText? d.baseUrl = .error url :=
  (validate_eq_badAuthority_iff.1 h).2

end EnvironmentDraft

open Request

/-- **When a request is made, and what is raised instead.** A request is made exactly if its environment, if there is
one, is valid and the properties of every object type entered for its parameters can be written out. Else the fault of
the environment is raised (its own, or that of a base URL that cannot be taken apart), or that of a type argument with a
backslash in it, which is no template. -/
theorem synthesize_outcome (setting : Skeleton.Setting) (picker : Picker) (draws : Nat)
    (environment : Option EnvironmentDraft) (e : Endpoint) :
    ((∃ request, (synthesize setting picker draws environment e).1.value = .ok request) ↔
      (∀ draft ∈ environment, ∃ given, draft.validate = .ok given) ∧
        ∀ p ∈ walked e, ∀ o, setting.catalog.Entered [] (setting.catalog.resolve p.typeText) o →
          ∃ properties, setting.catalog.propertiesOf o = .ok properties) ∧
    ∀ raised, (synthesize setting picker draws environment e).1.value = .error raised →
      (∃ draft ∈ environment, ∃ fault, draft.validate = .error fault ∧ raised = .environment fault ∧
        ∀ url, fault = .badAuthority url → Url.Parts.ofText? draft.baseUrl = .error url) ∨
      ∃ p ∈ walked e, ∃ o cause argument, setting.catalog.Entered [] (setting.catalog.resolve p.typeText) o ∧
        setting.catalog.propertiesOf o = .error cause ∧ '\\' ∈ argument ∧ Template.ofText? argument = .error cause ∧
        raised = .template cause := by
  rcases value_synthesize setting picker draws environment e with ⟨valid, request, made, _⟩ | ⟨invalid, fault, failed, cause⟩
  · refine ⟨iff_of_true ⟨request, made⟩ valid, fun raised failed => ?_⟩
    rw [made] at failed
    cases failed
  · refine ⟨iff_of_false ?_ invalid, fun raised same => ?_⟩
    · rintro ⟨request, made⟩
      rw [made] at failed
      cases failed
    · rw [failed] at same
      cases same
      rcases cause with ⟨draft, given, fault, fails, rfl⟩ | ⟨p, member, o, cause, entered, fails, rfl⟩
      · refine .inl ⟨draft, given, fault, fails, rfl, fun url same => ?_⟩
        subst same
        exact EnvironmentDraft.validate_badAuthority fails
      · obtain ⟨argument, backslash, refused⟩ := Catalog.propertiesOf_error fails
        exact .inr ⟨p, member, o, cause, argument, entered, fails, backslash, refused, rfl⟩

/-- an action that takes a page of a type whose name is written with an escape -/
def escapedArgument : Text :=
  "class Page<T> \x7b public T Item \x7b get; set; \x7d \x7d\n" ++
    "public class ItemsController : ControllerBase \x7b [HttpPost] public int Post(Page<\\u0041> p) \x7b return 1; \x7d \x7d"

/-- No request is made for an argument with such an escape, although there is no environment. -/
theorem escapedArgument_raises :
    let document := (readDocument escapedArgument).value
    document.endpoints ≠ [] ∧ ∀ e ∈ document.endpoints, ∀ now picker draws,
      ∃ raised, (synthesize ⟨document.catalog, now⟩ picker draws none e).1.value = .error raised := by
  intro document
  refine ⟨by decide +kernel, fun e member now picker draws => ?_⟩
  have page : ∀ e ∈ document.endpoints, ∃ p ∈ walked e,
      (document.catalog.resolve p.typeText).isObject = true ∧
        (document.catalog.propertiesOf (document.catalog.resolve p.typeText)).isOk = false := by decide +kernel
  obtain ⟨p, walks, object, fails⟩ := page e member
  rcases value_synthesize ⟨document.catalog, now⟩ picker draws none e with ⟨⟨_, written⟩, _⟩ | ⟨_, raised, same, _⟩
  · obtain ⟨properties, found⟩ := written p walks _ (Catalog.entered_object object)
    rw [found] at fails
    cases fails
  · exact ⟨raised, same⟩

end EndpointSurvey
