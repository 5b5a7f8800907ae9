/-
The two tests on whether a type may be null: the one on the text of a parameter's type, which decides if the parameter
is required, and the one resolving gives. The first looks at the last character and at how the text begins, the second
reads the type from the outside in. Both are told here by the structure of the type, and so where they differ.

Main statements: `isNullable_text` (the test on the text), `resolveWithin_nullable_eq` (by induction over the layers) and
`isNullable_ne_resolve_iff`.
-/
import EndpointSurvey.Proofs.Catalog.Meaning

namespace EndpointSurvey

namespace Rendered

/-- the spellings of the nullable wrapper that the test on a text knows -/
def nullableSpellings : List Text := ["Nullable", "System.Nullable"]

def TypeTrees.first : TypeTrees → TypeTree
  | .one t => t
  | .more t _ => t

namespace TypeTree

/-- the type without the question marks at its end -/
def core : TypeTree → TypeTree
  | .nullable t => t.core
  | t => t

/-- Does a question mark end the type? -/
def marked : TypeTree → Bool
  | .nullable _ => true
  | _ => false

/-- Does the text begin with the nullable wrapper and its arguments? -/
def opensNullable : TypeTree → Bool
  | .name _ => false
  | .generic n _ => nullableSpellings.contains n.text
  | .array element => element.opensNullable
  | .nullable t => t.opensNullable

/-- May the type be null, where no more than a number of layers are looked into? A question mark on a wrapper is passed
over. -/
def nullableWithin : Nat → TypeTree → Bool
  | 0, t => t.marked
  | layers + 1, t =>
    match t.core with
    | .generic n arguments =>
      if Catalog.wrapperNames.contains n.key then
        if n.key = ("nullable" : Text) then true else arguments.first.nullableWithin layers
      else t.marked
    | _ => t.marked

/-- the types of which the text says one thing and resolving another -/
inductive Misjudged : TypeTree → Prop
  /-- `Nullable<T>[]`: the elements may be null -/
  | elements {element : TypeTree} : element.opensNullable = true → Misjudged (.array element)
  /-- `Data.Nullable<T>`: resolving knows the wrapper by its last word, in letters of either case -/
  | spelling {n : QualifiedName} {a : TypeTrees} :
    n.key = ("nullable" : Text) → n.text ∉ nullableSpellings → Misjudged (.generic n a)
  /-- `Task<T?>`: what is looked through says nothing itself -/
  | inside {n : QualifiedName} {a : TypeTrees} :
    Catalog.wrapperNames.contains n.key = true → n.key ≠ ("nullable" : Text) → a.first.nullableWithin 12 = true →
      Misjudged (.generic n a)
  /-- `Task<T>?`: a question mark is passed over -/
  | outside {t : TypeTree} {n : QualifiedName} {a : TypeTrees} :
    t.core = .generic n a → Catalog.wrapperNames.contains n.key = true → n.key ≠ ("nullable" : Text) →
      a.first.nullableWithin 12 = false → Misjudged (.nullable t)

end TypeTree

/-! ## The test on the text -/

/-- Does a text begin with the nullable wrapper, in a spelling the test knows, and an angle bracket? -/
def opensWrapper (t : Text) : Bool :=
  match Text.after? "Nullable" ((Text.after? "System." t).getD t) with
  | some rest => (rest.dropWhile blank).head? = some '<'
  | none => false

theorem isNullable_eq (t : Text) : isNullable t = (t.trim.getLast? = some '?' || opensWrapper t.trim) := rfl

/-- The test asks for one of two dotted names and an angle bracket behind it. -/
theorem opensWrapper_iff (t : Text) : opensWrapper t = true ↔
    t.takeWhile dottedChar ∈ nullableSpellings ∧ ((t.dropWhile dottedChar).dropWhile blank).head? = some '<' := by
  constructor
  · intro wrapper
    -- the name ends where the test stopped reading it, since a blank or the bracket stands there
    have ends (spelling : Text) {rest : Text} (known : spelling ∈ nullableSpellings) (dotted : spelling.all dottedChar = true)
        (bracket : (rest.dropWhile blank).head? = some '<') (e : spelling ++ rest = t) :
        t.takeWhile dottedChar ∈ nullableSpellings ∧
          ((t.dropWhile dottedChar).dropWhile blank).head? = some '<' := by
      have stop : ∀ c ∈ rest.head?, dottedChar c = false := by
        cases rest with
        | nil => simp
        | cons d ds =>
          rintro c ⟨⟩
          by_cases space : blank d = true
          · by_contra dotted
            have solid := not_blank_of_bareChar (bareChar_of_dottedChar ((Bool.not_eq_false _).mp dotted))
            rw [space] at solid
            cases solid
          · rw [List.dropWhile_cons_of_neg space] at bracket
            cases bracket
            decide
      rw [← e, Text.takeWhile_padded (List.all_eq_true.1 dotted) stop,
        Text.dropWhile_padded (List.all_eq_true.1 dotted) stop]
      exact ⟨known, bracket⟩
    unfold opensWrapper at wrapper
    split at wrapper
    · next rest name =>
      have bracket := of_decide_eq_true wrapper
      cases system : Text.after? "System." t with
      | some named =>
        rw [system, Option.getD_some] at name
        have e := Lexeme.after?_append system
        rw [← Lexeme.after?_append name] at e
        exact ends "System.Nullable" (by decide) (by decide) bracket e
      | none =>
        rw [system, Option.getD_none] at name
        exact ends "Nullable" (by decide) (by decide) bracket (Lexeme.after?_append name)
    · exact absurd wrapper Bool.false_ne_true
  · rintro ⟨known, bracket⟩
    have e : t.takeWhile dottedChar ++ t.dropWhile dottedChar = t := List.takeWhile_append_dropWhile
    simp only [nullableSpellings, List.mem_cons, List.not_mem_nil, or_false] at known
    rcases known with name | name
    all_goals
      rw [name] at e
      rw [← e]
      exact decide_eq_true bracket

namespace TypeTree

/-- A type starts with a dotted name, behind which an angle bracket stands only for arguments. -/
theorem exists_opening (t : TypeTree) : ∃ (n : QualifiedName) (tail : Text), t.text = n.text ++ tail ∧
    (∀ c ∈ tail.head?, dottedChar c = false ∧ blank c = false) ∧
    (t.opensNullable = true ↔ n.text ∈ nullableSpellings ∧ tail.head? = some '<') := by
  cases t with
  | name n => exact ⟨n, [], (List.append_nil _).symm, by simp, by simp [opensNullable]⟩
  | generic n a => exact ⟨n, _, rfl, by rintro c ⟨⟩; decide, by simp [opensNullable]⟩
  | array element =>
    obtain ⟨n, tail, e, stop, wrapper⟩ := element.exists_opening
    refine ⟨n, tail ++ ['[', ']'], by rw [text, e, List.append_assoc], ?_⟩
    cases tail with
    | nil => exact ⟨by rintro c ⟨⟩; decide, by simpa [opensNullable] using wrapper⟩
    | cons d ds => exact ⟨stop, wrapper⟩
  | nullable t =>
    obtain ⟨n, tail, e, stop, wrapper⟩ := t.exists_opening
    refine ⟨n, tail ++ ['?'], by rw [text, e, List.append_assoc], ?_⟩
    cases tail with
    | nil => exact ⟨by rintro c ⟨⟩; decide, by simpa [opensNullable] using wrapper⟩
    | cons d ds => exact ⟨stop, wrapper⟩

theorem opensWrapper_text (t : TypeTree) : opensWrapper t.text = t.opensNullable := by
  obtain ⟨n, tail, e, stop, wrapper⟩ := t.exists_opening
  have kept : tail.dropWhile blank = tail := Text.dropWhile_padded (List.forall_mem_nil _) fun c hc => (stop c hc).2
  rw [Bool.eq_iff_iff, opensWrapper_iff, wrapper, e, Text.takeWhile_padded n.dottedChars fun c hc => (stop c hc).1,
    Text.dropWhile_padded n.dottedChars fun c hc => (stop c hc).1, kept]

theorem getLast?_question (t : TypeTree) : t.text.getLast? = some '?' ↔ t.marked = true := by
  cases t with
  | name n =>
    refine iff_of_false (fun last => ?_) Bool.false_ne_true
    exact n.bare.ne_of_mem (List.mem_of_getLast? last) (by decide) rfl
  | generic n a => simp [n.getLast?_generic a, marked]
  | array t => simp [text, marked]
  | nullable t => simp [text, marked]

/-- **The test on the text** looks for a question mark at the end, or the wrapper at the beginning. -/
theorem isNullable_text (t : TypeTree) : isNullable t.text = (t.marked || t.opensNullable) := by
  have question : decide (t.text.getLast? = some '?') = t.marked := by simp only [t.getLast?_question, Bool.decide_eq_true]
  rw [isNullable_eq, t.trim_text, t.opensWrapper_text, question]

/-! ## The test by resolving -/

theorem core_ne_nullable : ∀ t s : TypeTree, t.core ≠ .nullable s
  | .name _, _ | .generic _ _, _ | .array _, _ => nofun
  | .nullable t, s => t.core_ne_nullable s

/-- The question marks at the end are taken off, and that there is one is kept. -/
theorem ofText_core (t : TypeTree) : TypeText.ofText t.text = ⟨t.core.text, t.marked⟩ := by
  cases t with
  | name n => exact n.ofText_name
  | generic n a => exact n.ofText_generic a
  | array t => exact t.ofText_array
  | nullable t =>
    rw [ofText_nullable, t.ofText_core]
    rfl

end TypeTree

theorem TypeTrees.first_text (a : TypeTrees) : ∃ rest, a.texts = a.first.text :: rest := by
  cases a with
  | one t => exact ⟨[], rfl⟩
  | more t rest => exact ⟨rest.texts, rfl⟩

end Rendered

open Rendered

theorem ResolvedType.nullable_asNullable (r : ResolvedType) : r.asNullable.nullable = true := by cases r <;> rfl

namespace Catalog

variable (c : Catalog) (name : Text) (nullable : Bool)

theorem nullable_resolveName : (c.resolveName name nullable).nullable = nullable := by
  unfold resolveName
  dsimp only
  repeat' split
  all_goals rfl

theorem nullable_resolveGeneric (arguments : List Text) :
    (c.resolveGeneric name nullable arguments).nullable = nullable := by
  unfold resolveGeneric
  split <;> rfl

/-- Whether a resolved type may be null lies in its structure, whatever the catalog. -/
theorem resolveWithin_nullable_eq (layers : Nat) (t : TypeTree) :
    (c.resolveWithin layers t.text).nullable = t.nullableWithin layers := by
  induction layers generalizing t with
  | zero =>
    rw [resolveWithin]
    simp only [t.ofText_core]
    rfl
  | succ layers ih =>
    have read := t.ofText_core
    rw [TypeTree.nullableWithin]
    cases shape : t.core with
    | name n =>
      rw [shape] at read
      rw [resolveWithin_of_name read, nullable_resolveName]
    | array element =>
      rw [shape] at read
      rw [resolveWithin_of_array read]
      split <;> rfl
    | generic n a =>
      rw [shape] at read
      obtain ⟨rest, texts⟩ := a.first_text
      rw [resolveWithin_of_generic texts read]
      dsimp only
      by_cases wrapper : wrapperNames.contains n.key = true
      · rw [if_pos wrapper, if_pos wrapper]
        by_cases null : n.key = ("nullable" : Text)
        · rw [if_pos null, if_pos null, ResolvedType.nullable_asNullable]
        · rw [if_neg null, if_neg null, ih]
      · rw [if_neg wrapper, if_neg wrapper]
        split
        · rfl
        · split
          · rfl
          · exact nullable_resolveGeneric ..
    | nullable s => exact absurd shape (t.core_ne_nullable s)

end Catalog

/-! ## Where the two differ -/

/-- Both spellings are the wrapper's. -/
theorem Rendered.QualifiedName.key_of_spelling {n : QualifiedName} (known : n.text ∈ nullableSpellings) :
    n.key = ("nullable" : Text) := by
  have spelt : ∀ spelling ∈ nullableSpellings, (unqualified spelling).lower = ("nullable" : Text) := by decide
  rw [QualifiedName.key, ← n.unqualified_text]
  exact spelt n.text known

namespace Rendered.TypeTree

/-- What resolving finds of a generic type, with or without question marks behind it. -/
theorem nullableWithin_generic {t : TypeTree} {n : QualifiedName} {a : TypeTrees} (shape : t.core = .generic n a)
    (layers : Nat) : t.nullableWithin (layers + 1) =
      if Catalog.wrapperNames.contains n.key then
        if n.key = ("nullable" : Text) then true else a.first.nullableWithin layers
      else t.marked := by
  rw [nullableWithin, shape]

theorem misjudged_array (element : TypeTree) :
    (TypeTree.array element).Misjudged ↔ element.opensNullable = true :=
  ⟨fun | .elements opens => opens, .elements⟩

theorem misjudged_generic (n : QualifiedName) (a : TypeTrees) : (TypeTree.generic n a).Misjudged ↔
    if n.key = ("nullable" : Text) then n.text ∉ nullableSpellings
    else Catalog.wrapperNames.contains n.key = true ∧ a.first.nullableWithin 12 = true := by
  constructor
  · intro misjudged
    cases misjudged with
    | spelling null unknown => rwa [if_pos null]
    | inside wrapper other null => exact (if_neg other).symm ▸ ⟨wrapper, null⟩
  · intro condition
    by_cases null : n.key = ("nullable" : Text)
    · rw [if_pos null] at condition
      exact .spelling null condition
    · rw [if_neg null] at condition
      exact .inside condition.1 null condition.2

/-- A question mark is lost on what is looked through, unless the type inside may be null itself. -/
theorem misjudged_nullable (t : TypeTree) :
    (TypeTree.nullable t).Misjudged ↔ (TypeTree.nullable t).nullableWithin Catalog.layerLimit = false := by
  have marked : ¬ (TypeTree.nullable t).marked = false := nofun
  constructor
  · rintro ⟨⟩
    next n a wrapper other unmarked shape =>
    rw [Catalog.layerLimit, nullableWithin_generic (t := .nullable t) shape, if_pos wrapper, if_neg other, unmarked]
  · intro lost
    cases shape : t.core with
    | name n =>
      rw [Catalog.layerLimit, nullableWithin, core, shape] at lost
      exact absurd lost marked
    | array element =>
      rw [Catalog.layerLimit, nullableWithin, core, shape] at lost
      exact absurd lost marked
    | nullable s => exact absurd shape (t.core_ne_nullable s)
    | generic n a =>
      rw [Catalog.layerLimit, nullableWithin_generic (t := .nullable t) shape] at lost
      by_cases wrapper : Catalog.wrapperNames.contains n.key = true
      · rw [if_pos wrapper] at lost
        by_cases null : n.key = ("nullable" : Text)
        · rw [if_pos null] at lost
          exact absurd lost (by decide)
        · rw [if_neg null] at lost
          exact .outside shape wrapper null lost
      · rw [if_neg wrapper] at lost
        exact absurd lost marked

end Rendered.TypeTree

/-- **The two tests differ** on exactly the types listed as misjudged, in every catalog: of those whose outermost
constructor is no task and no action result, on the arrays that begin with the wrapper, on the wrapper in another
spelling, and on tasks and action results with a question mark behind them. -/
theorem isNullable_ne_resolve_iff (c : Catalog) (t : TypeTree) :
    isNullable t.text ≠ (c.resolve t.text).nullable ↔ t.Misjudged := by
  rw [Catalog.resolve, c.resolveWithin_nullable_eq, t.isNullable_text]
  cases t with
  | name n => exact iff_of_false (fun differ => differ rfl) nofun
  | array element =>
    have resolved : (TypeTree.array element).nullableWithin Catalog.layerLimit = false := rfl
    rw [resolved, TypeTree.misjudged_array, ← Bool.not_eq_false]
    exact Iff.rfl
  | nullable t =>
    have written : ((TypeTree.nullable t).marked || (TypeTree.nullable t).opensNullable) = true := rfl
    rw [written, TypeTree.misjudged_nullable, ← Bool.not_eq_true]
    exact ne_comm
  | generic n a =>
    have written : ((TypeTree.generic n a).marked || (TypeTree.generic n a).opensNullable) =
        nullableSpellings.contains n.text := rfl
    rw [written, Catalog.layerLimit, TypeTree.nullableWithin_generic rfl, TypeTree.misjudged_generic]
    by_cases null : n.key = ("nullable" : Text)
    · have wrapper : Catalog.wrapperNames.contains n.key = true := by
        rw [null]
        decide
      rw [if_pos wrapper, if_pos null, if_pos null, List.contains_eq_mem, ne_eq, decide_eq_true_iff]
    · have unspelt : nullableSpellings.contains n.text = false := by
        rw [List.contains_eq_mem, decide_eq_false_iff_not]
        exact fun known => null (n.key_of_spelling known)
      rw [if_neg null, if_neg null, unspelt]
      by_cases wrapper : Catalog.wrapperNames.contains n.key = true
      · rw [if_pos wrapper, and_iff_right wrapper, ne_comm, Bool.ne_false_iff]
      · rw [if_neg wrapper]
        exact iff_of_false (fun differ => differ rfl) fun both => wrapper both.1

/-- An array of nullable numbers is taken for one that may be null, so that it is not required. -/
example : isNullable "Nullable<int>[]" = true ∧ ((Catalog.ofList []).resolve "Nullable<int>[]").nullable = false := by
  decide +kernel

end EndpointSurvey
