/-
Routes as they are rendered from a description: segments between slashes, each made of literal text and of parameters
with up to two stars, a name, constraints behind colons, and an end.

Main statement: `RoutePattern.normalize_text_iff` (every parameter is reduced to its name exactly if none holds a
brace).
-/
import EndpointSurvey.Proofs.Rendered.Identifiers
import EndpointSurvey.Proofs.Route.NormalForm

namespace EndpointSurvey.Rendered

open Route

/-- literal text of a route, with no brace and no slash in it -/
structure RouteLiteral where
  text : Text
  plain : ∀ c ∈ text, inBraces c = true ∧ c ≠ '/'

/-- what stands at the end of a parameter -/
inductive SlotEnd where
  | bare
  | optional
  | value (default : Text)

def SlotEnd.text : SlotEnd → Text
  | bare => []
  | optional => ['?']
  | value default => '=' :: default

/-- a parameter of a route -/
structure Slot where
  stars : Fin 3
  name : Identifier
  constraints : List Text
  ending : SlotEnd

namespace Slot

/-- what stands behind the name: each constraint behind a colon, and the end -/
def more (s : Slot) : Text := s.constraints.flatMap (':' :: ·) ++ s.ending.text

def inner (s : Slot) : Text := List.replicate s.stars '*' ++ (s.name.text ++ s.more)

def text (s : Slot) : Text := '\x7b' :: (s.inner ++ ['\x7d'])

/-- the parameter with nothing but its name -/
def plain (s : Slot) : Text := '\x7b' :: (s.name.text ++ ['\x7d'])

end Slot

/-- a part of a segment -/
inductive RoutePart where
  | literal (l : RouteLiteral)
  | slot (s : Slot)

namespace RoutePart

def text : RoutePart → Text
  | literal l => l.text
  | slot s => s.text

/-- the part with nothing but the names of parameters in braces -/
def plain : RoutePart → Text
  | literal l => l.text
  | slot s => s.plain

def slots : RoutePart → List Slot
  | literal _ => []
  | slot s => [s]

end RoutePart

/-- a route: segments with slashes between them -/
structure RoutePattern where
  segments : List (List RoutePart)

namespace RoutePattern

def form (part : RoutePart → Text) (r : RoutePattern) : Text := Text.join ['/'] (r.segments.map (·.flatMap part))

/-- the route as it is written -/
def text (r : RoutePattern) : Text := r.form RoutePart.text

/-- the route with nothing but the names of parameters in braces -/
def plain (r : RoutePattern) : Text := r.form RoutePart.plain

/-- its parameters, in order -/
def slots (r : RoutePattern) : List Slot := r.segments.flatMap (·.flatMap RoutePart.slots)

end RoutePattern

/-! ## From parts to the whole route -/

/-- What relates a text and its plain form, given its parameters, carries over from two texts to both of them. -/
structure Compositional (R : Text → Text → List Slot → Prop) : Prop where
  literal : ∀ t, BraceFree t → R t t []
  append : ∀ {s s' plain plain' slots slots'}, R s plain slots → R s' plain' slots' →
    R (s ++ s') (plain ++ plain') (slots ++ slots')

namespace Compositional

variable {R : Text → Text → List Slot → Prop} {α : Type} {f g : α → Text} {slots : α → List Slot} {parts : List α}

theorem flatMap (h : Compositional R) (each : ∀ part ∈ parts, R (f part) (g part) (slots part)) :
    R (parts.flatMap f) (parts.flatMap g) (parts.flatMap slots) := by
  induction parts with
  | nil => exact h.literal [] nofun
  | cons part rest ih =>
    obtain ⟨first, others⟩ := List.forall_mem_cons.1 each
    exact h.append first (ih others)

theorem join (h : Compositional R) {separator : Text} (free : BraceFree separator)
    (each : ∀ part ∈ parts, R (f part) (g part) (slots part)) :
    R (Text.join separator (parts.map f)) (Text.join separator (parts.map g)) (parts.flatMap slots) := by
  induction parts with
  | nil => exact h.literal [] nofun
  | cons part rest ih =>
    obtain ⟨first, others⟩ := List.forall_mem_cons.1 each
    cases rest with
    | nil =>
      rw [List.flatMap_singleton, List.map_singleton, List.map_singleton, Text.join, Text.join,
        List.intercalate_singleton, List.intercalate_singleton]
      exact first
    | cons next rest =>
      have behind := h.append (h.literal separator free) (ih others)
      rw [List.nil_append] at behind
      rw [List.map_cons, List.map_cons, List.map_cons, List.map_cons, Text.join_cons, Text.join_cons]
      exact h.append first behind

/-- What holds of every parameter of a route holds of the route. -/
theorem route (h : Compositional R) {r : RoutePattern} (each : ∀ s ∈ r.slots, R s.text s.plain [s]) :
    R r.text r.plain r.slots := by
  refine h.join (by simp [BraceFree, inBraces]) fun segment here => h.flatMap fun part member => ?_
  cases part with
  | literal l => exact h.literal l.text fun c hc => (l.plain c hc).1
  | slot s =>
    have own : s ∈ segment.flatMap RoutePart.slots := List.mem_flatMap.2 ⟨_, member, List.mem_singleton_self s⟩
    exact each s (List.mem_flatMap.2 ⟨segment, here, own⟩)

end Compositional

/-! ## Reducing parameters -/

/-- in front of any text, `s` is reduced to its plain form and has these parameters -/
structure Reduces (s plain : Text) (slots : List Slot) : Prop where
  text : ∀ t, reduced (s ++ t) = plain ++ reduced t
  names : ∀ t, parameterNames (s ++ t) = slots.map (·.name.text) ++ parameterNames t

theorem compositional_reduces : Compositional Reduces where
  literal s free :=
    { text := reduced_free_append free
      names := fun t => by rw [parameterNames_eq, parameterNames_eq, insides_free_append free]; rfl }
  append h h' :=
    { text := fun t => by rw [List.append_assoc, h.text, h'.text, List.append_assoc]
      names := fun t => by rw [List.append_assoc, h.names, h'.names, List.map_append, List.append_assoc] }

theorem Slot.star_run (s : Slot) : List.replicate s.stars '*' ∈ starRuns := by
  have all : ∀ n : Fin 3, List.replicate n '*' ∈ starRuns := by decide
  exact all s.stars

theorem Slot.name_free (s : Slot) : BraceFree s.name.text := fun c hc =>
  wordChar_free (List.all_eq_true.1 s.name.word c hc)

/-- No word goes on behind the name. -/
theorem Slot.head?_more (s : Slot) : ∀ c ∈ s.more.head?, wordChar c = false := by
  unfold Slot.more
  cases s.constraints with
  | nil =>
    cases s.ending with
    | bare => nofun
    | optional => rintro _ ⟨⟩; decide
    | value default => rintro _ ⟨⟩; decide
  | cons first rest => rintro _ ⟨⟩; decide

theorem Slot.inner_free {s : Slot} (free : BraceFree s.more) : BraceFree s.inner :=
  List.forall_mem_append.2 ⟨starRuns_free s.star_run, List.forall_mem_append.2 ⟨s.name_free, free⟩⟩

theorem Slot.nameOf?_inner {s : Slot} (free : BraceFree s.more) : nameOf? s.inner = some s.name.text :=
  (nameOf?_eq_some_iff (s.inner_free free)).2 ⟨s.inner, rfl, s.inner_free free, _, s.star_run, s.more, rfl,
    s.name.start, List.all_eq_true.1 s.name.word, s.head?_more⟩

theorem Slot.reduces {s : Slot} (free : BraceFree s.more) : Reduces s.text s.plain [s] := by
  have named := s.nameOf?_inner free
  refine ⟨fun t => ?_, fun t => ?_⟩ <;> rw [Slot.text, List.cons_append, List.append_assoc, List.singleton_append]
  · rw [reduced_parameter (s.inner_free free) named, Slot.plain, List.cons_append, List.append_assoc,
      List.singleton_append]
  · rw [parameterNames_eq, parameterNames_eq, insides_brace (s.inner_free free), List.filterMap_cons_some named]
    rfl

/-! ## Counting braces -/

/-- the text has, beside the braces of its plain form, those behind the names of its parameters -/
def Exceeds (s plain : Text) (slots : List Slot) : Prop :=
  (braces s).length = (braces plain).length + (slots.flatMap fun slot => braces slot.more).length

theorem compositional_exceeds : Compositional Exceeds where
  literal s _ := rfl
  append {s s' plain plain' slots slots'} h h' := by
    unfold Exceeds at h h' ⊢
    rw [braces_append, braces_append, List.flatMap_append, List.length_append, List.length_append, List.length_append,
      h, h']
    omega

theorem Slot.exceeds (s : Slot) : Exceeds s.text s.plain [s] := by
  have inside : braces s.inner = braces s.more := by
    rw [Slot.inner, braces_append, braces_append, braces_eq_nil_iff.2 (starRuns_free s.star_run),
      braces_eq_nil_iff.2 s.name_free]
    rfl
  have written : braces s.text = '\x7b' :: (braces s.more ++ ['\x7d']) := by
    rw [Slot.text, braces_cons, braces_append, inside]
    rfl
  have plain : braces s.plain = ['\x7b', '\x7d'] := braces_parameter s.name_free []
  rw [Exceeds, written, plain, List.flatMap_singleton, List.length_cons, List.length_append]
  simp
  omega

/-- A route has the braces of its plain form alone exactly if there is none behind a name. -/
theorem RoutePattern.braces_text_iff (r : RoutePattern) :
    (braces r.text).length = (braces r.plain).length ↔ ∀ s ∈ r.slots, BraceFree s.more := by
  have whole : Exceeds r.text r.plain r.slots := compositional_exceeds.route fun s _ => s.exceeds
  rw [whole, Nat.add_eq_left, List.length_eq_zero_iff, List.flatMap_eq_nil_iff]
  exact forall₂_congr fun s _ => braces_eq_nil_iff

/-- **Every parameter is reduced to its name** exactly if no constraint and no default holds a brace. -/
theorem RoutePattern.normalize_text_iff (r : RoutePattern) :
    normalize r.text =
        ⟨rooted (pathSegments r.plain.trim), (r.slots.map (·.name.text)).eraseDupsBy Text.sameFolded⟩ ↔
      ∀ s ∈ r.slots, BraceFree s.more := by
  rw [← tidy_eq]
  constructor
  · intro same
    have template := congrArg (braces ·.template) same
    rw [braces_normalize, braces_tidy, braces_trim] at template
    exact r.braces_text_iff.1 (congrArg List.length template)
  · intro free
    have h : Reduces r.text r.plain r.slots := compositional_reduces.route fun s member => s.reduces (free s member)
    have text := h.text []
    have names := h.names []
    rw [reduced_nil, List.append_nil, List.append_nil] at text
    rw [parameterNames_nil, List.append_nil, List.append_nil] at names
    rw [← names, ← tokens_normalize, ← text, ← reduced_trim]
    rfl

end EndpointSurvey.Rendered
