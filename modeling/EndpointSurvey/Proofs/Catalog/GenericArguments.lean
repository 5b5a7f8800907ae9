/-
Type arguments on the way from a type up its bases, where they are put in for the parameters of one declaration after
another.

Main statements: `resolve_arguments` (the arguments of a type are made of its text), `plain_of_isWayUp` (arguments
without a backslash stay so on the way) and `propertiesOf_typeArguments`.
-/
import EndpointSurvey.Proofs.Attribute.Layout
import EndpointSurvey.Proofs.Catalog.Lineage
import EndpointSurvey.Proofs.Catalog.Substitution

namespace EndpointSurvey

/-! ## What texts are made of -/

/-- Every character of the text is of a kind. -/
def Text.MadeOf (ok : Char → Prop) (t : Text) : Prop := ∀ c ∈ t, ok c

namespace Text.MadeOf

variable {ok : Char → Prop} {s t : Text}

theorem sub (h : MadeOf ok t) (within : s ⊆ t) : MadeOf ok s := fun c member => h c (within member)

theorem append (hs : MadeOf ok s) (ht : MadeOf ok t) : MadeOf ok (s ++ t) :=
  fun c member => (List.mem_append.1 member).elim (hs c) (ht c)

theorem word (h : MadeOf ok t) : ∀ w ∈ words t, MadeOf ok w := by
  fun_induction words t with
  | case1 => exact List.forall_mem_nil _
  | case2 c cs _ ih => exact ih (h.sub (List.subset_cons_self c cs))
  | case3 c cs _ ih =>
    have first : MadeOf ok (c :: cs.takeWhile (!blank ·)) :=
      h.sub (List.cons_subset_cons c (List.takeWhile_prefix _).subset)
    have others : MadeOf ok (cs.dropWhile (!blank ·)) :=
      h.sub (List.Subset.trans (List.dropWhile_suffix _).subset (List.subset_cons_self c cs))
    exact List.forall_mem_cons.2 ⟨first, ih others⟩

theorem collapse (space : ok ' ') (h : MadeOf ok t) : MadeOf ok t.collapse :=
  forall_mem_join (List.forall_mem_singleton.2 space) h.word

end Text.MadeOf

theorem ResolvedType.asNullable_arguments (r : ResolvedType) : r.asNullable.arguments = r.arguments := by
  cases r <;> rfl

namespace Catalog

variable {c : Catalog} {ok : Char → Prop} {t : Text}

theorem core_madeOf (space : ok ' ') (h : Text.MadeOf ok t) : (TypeText.ofText t).core.MadeOf ok :=
  (h.collapse space).sub (List.Subset.trans (trim_within _).subset (dropEnd_front _ _).subset)

theorem form_arguments_madeOf {read : TypeText} {base : Text} {arguments : List Text}
    (form : read.form = .generic base arguments) (h : read.core.MadeOf ok) : ∀ x ∈ arguments, Text.MadeOf ok x := by
  unfold TypeText.form at form
  split at form
  · cases form
  · split at form
    · cases form
    · split at form
      · next base inside found =>
        cases form
        have within : inside ⊆ read.core := by
          unfold TypeText.generic? at found
          simp only at found
          split at found
          · next rest opens =>
            split at found
            · cases found
              have tail : '<' :: rest <:+ read.core :=
                opens ▸ (List.dropWhile_suffix blank).trans (List.dropWhile_suffix dottedChar)
              have behind : rest ⊆ read.core := List.Subset.trans (List.subset_cons_self '<' rest) tail.subset
              exact List.Subset.trans (List.dropLast_subset rest) behind
            · cases found
          · cases found
        exact fun x member => h.sub (List.Subset.trans (splitTop_within member).subset within)
      · cases form

theorem resolveName_arguments (c : Catalog) (name : Text) (nullable : Bool) :
    (c.resolveName name nullable).arguments = [] := by
  unfold resolveName
  simp only
  repeat' split
  all_goals rfl

theorem resolveGeneric_arguments (c : Catalog) (name : Text) (nullable : Bool) (arguments : List Text) :
    (c.resolveGeneric name nullable arguments).arguments = arguments := by
  unfold resolveGeneric
  split <;> rfl

/-- The arguments of a type are made of its text, but for spaces. -/
theorem resolveWithin_arguments (space : ok ' ') {layers : Nat} (h : Text.MadeOf ok t) :
    ∀ x ∈ (c.resolveWithin layers t).arguments, Text.MadeOf ok x := by
  induction layers generalizing t with
  | zero => exact List.forall_mem_nil _
  | succ layers ih =>
    have core := core_madeOf space h
    unfold resolveWithin
    simp only
    split
    · exact List.forall_mem_nil _
    · split <;> exact List.forall_mem_nil _
    · next base arguments form =>
      have made := form_arguments_madeOf form core
      split
      · rw [resolveGeneric_arguments]
        exact made
      · next first rest =>
        split
        · have inner := ih (made first List.mem_cons_self)
          split
          · rwa [ResolvedType.asNullable_arguments]
          · exact inner
        · split
          · exact List.forall_mem_nil _
          · split
            · exact made
            · rw [resolveGeneric_arguments]
              exact made
    · rw [resolveName_arguments]
      exact List.forall_mem_nil _

theorem resolve_arguments (space : ok ' ') (h : Text.MadeOf ok t) : ∀ x ∈ (c.resolve t).arguments, Text.MadeOf ok x :=
  resolveWithin_arguments space h

end Catalog

/-! ## Arguments on the way up -/

namespace TypeArguments

variable {ok : Char → Prop} {bound : TypeArguments} {t : Text}

theorem atOnce_madeOf (h : t.MadeOf ok) (arguments : ∀ entry ∈ bound, entry.2.MadeOf ok) :
    (bound.atOnce t).MadeOf ok := by
  induction t using Text.by_runs with
  | nil => rw [atOnce_nil]; exact h
  | mark c t hc ih =>
    obtain ⟨first, others⟩ := List.forall_mem_cons.1 h
    rw [atOnce_cons_mark hc]
    exact List.forall_mem_cons.2 ⟨first, ih others⟩
  | run w t filled letters edge ih =>
    rw [atOnce_run filled letters edge]
    refine Text.MadeOf.append ?_ (ih (h.sub (List.subset_append_right w t)))
    cases found : Entries.lookup? w bound with
    | none => exact h.sub (List.subset_append_left w t)
    | some a => exact arguments _ (Entries.mem_of_lookup? found)

theorem chained_madeOf (arguments : ∀ entry ∈ bound, entry.2.MadeOf ok) :
    ∀ entry ∈ bound.chained, entry.2.MadeOf ok := by
  induction bound with
  | nil => exact arguments
  | cons entry rest ih =>
    obtain ⟨first, others⟩ := List.forall_mem_cons.1 arguments
    exact List.forall_mem_cons.2 ⟨atOnce_madeOf first (ih others), ih others⟩

end TypeArguments

/-- The type parameters are different words, and the base is written without a backslash. -/
structure TypeDescriptor.Plain (d : TypeDescriptor) : Prop where
  distinct : d.typeParameters.Nodup
  words : ∀ p ∈ d.typeParameters, p ≠ [] ∧ ∀ c ∈ p, wordChar c = true
  base : ∀ base ∈ d.baseType, '\\' ∉ base

instance (d : TypeDescriptor) : Decidable d.Plain :=
  decidable_of_iff (d.typeParameters.Nodup ∧ (∀ p ∈ d.typeParameters, p ≠ [] ∧ ∀ c ∈ p, wordChar c = true) ∧
      ∀ base ∈ d.baseType, '\\' ∉ base)
    ⟨fun h => ⟨h.1, h.2.1, h.2.2⟩, fun h => ⟨h.distinct, h.words, h.base⟩⟩

/-- The declaration is plain, and its parameters are bound to arguments without a backslash. -/
structure Ancestor.Plain (a : Ancestor) : Prop where
  declaration : a.descriptor.Plain
  paired : ∃ arguments, a.bound = a.descriptor.typeParameters.zip arguments
  distinct : (Entries.keys a.bound).Nodup
  bound : a.bound.Plain

theorem keys_zip_sublist (parameters arguments : List Text) :
    (Entries.keys (parameters.zip arguments)).Sublist parameters := by
  induction parameters generalizing arguments with
  | nil => rfl
  | cons p ps ih =>
    cases arguments with
    | nil => exact List.nil_sublist _
    | cons a rest => exact (ih rest).cons_cons p

namespace TypeDescriptor.Plain

variable {d : TypeDescriptor} {arguments : List Text}

/-- Different parameters are bound to the arguments in their places. -/
theorem bound_eq (plain : d.Plain) (arguments : List Text) :
    (Ancestor.of d arguments).bound = d.typeParameters.zip arguments :=
  Entries.ofList_of_nodup (plain.distinct.sublist (keys_zip_sublist _ _))

theorem ancestor (plain : d.Plain) (unescaped : ∀ a ∈ arguments, '\\' ∉ a) : (Ancestor.of d arguments).Plain where
  declaration := plain
  paired := ⟨arguments, plain.bound_eq arguments⟩
  distinct := by
    rw [plain.bound_eq]
    exact plain.distinct.sublist (keys_zip_sublist _ _)
  bound := by
    rw [plain.bound_eq]
    rintro ⟨p, a⟩ member
    obtain ⟨parameter, argument⟩ := List.of_mem_zip member
    exact ⟨(plain.words p parameter).1, (plain.words p parameter).2, unescaped a argument⟩

end TypeDescriptor.Plain

theorem Ancestor.Plain.words {a : Ancestor} (plain : a.Plain) :
    ∀ p ∈ Entries.keys a.bound, p ≠ [] ∧ ∀ c ∈ p, wordChar c = true := by
  intro p member
  obtain ⟨entry, bound, rfl⟩ := List.mem_map.1 member
  exact ⟨(plain.bound entry bound).1, (plain.bound entry bound).2.1⟩

namespace Catalog

variable {c : Catalog} {a b : Ancestor} {way : List Ancestor}

/-- The type above a plain one is what its base resolves to when the arguments are put in, each with those after it. -/
theorem above_plain_eq (plain : a.Plain) {base : Text} (written : a.descriptor.baseType = some base)
    (given : base ≠ []) :
    c.above a = .ok ((c.resolve (a.bound.chained.atOnce base)).descriptor?.map
      (Ancestor.of · (c.resolve (a.bound.chained.atOnce base)).arguments)) :=
  above_ok written given (TypeArguments.substitute_eq_ok plain.bound base)

/-- Plain types have plain types above them, and no error. -/
theorem above_plain (reachable : ∀ d ∈ c.reachable, d.Plain) (plain : a.Plain) :
    ∃ next, c.above a = .ok next ∧ ∀ b ∈ next, b.Plain := by
  cases written : a.descriptor.baseType with
  | none => exact ⟨none, above_none (.inl written), by simp⟩
  | some base =>
    by_cases given : base = []
    · exact ⟨none, above_none (.inr (given ▸ written)), by simp⟩
    · refine ⟨_, above_plain_eq plain written given, ?_⟩
      intro b found
      obtain ⟨d, declared, rfl⟩ := Option.map_eq_some_iff.1 found
      have text : Text.MadeOf (· ≠ '\\') base := by
        intro x member same
        exact plain.declaration.base base written (same ▸ member)
      have arguments : ∀ entry ∈ a.bound, entry.2.MadeOf (· ≠ '\\') := by
        intro entry member x held same
        exact (plain.bound entry member).2.2 (same ▸ held)
      have unescaped : (a.bound.chained.atOnce base).MadeOf (· ≠ '\\') :=
        TypeArguments.atOnce_madeOf text (TypeArguments.chained_madeOf arguments)
      apply (reachable d (resolve_descriptor_mem declared)).ancestor
      intro x member escaped
      exact resolve_arguments (by decide) unescaped x member '\\' escaped rfl

/-- Everything on a way up is plain if its start and the declarations are. -/
theorem plain_of_isWayUp (reachable : ∀ d ∈ c.reachable, d.Plain) (plain : a.Plain) (up : c.IsWayUp a way) :
    ∀ b ∈ way, b.Plain := by
  obtain ⟨rest, rfl⟩ := List.head?_eq_some_iff.1 up.starts
  refine List.forall_mem_cons.2 ⟨plain, ?_⟩
  have climbs := up.climbs
  clear up
  induction rest generalizing a with
  | nil => exact List.forall_mem_nil _
  | cons b rest ih =>
    obtain ⟨step, later⟩ := List.isChain_cons_cons.1 climbs
    obtain ⟨next, found, plainNext⟩ := above_plain reachable plain
    cases step.symm.trans found
    have plainNext := plainNext b rfl
    exact List.forall_mem_cons.2 ⟨plainNext, ih plainNext later⟩

theorem not_raises (reachable : ∀ d ∈ c.reachable, d.Plain) (plain : a.Plain) (up : c.IsWayUp a way)
    (e : Template.Error) : ¬ c.Raises way e := by
  have onWay := plain_of_isWayUp reachable plain up
  rintro (⟨last, atEnd, raised⟩ | ⟨_, b, member, q, _, raised⟩)
  · obtain ⟨next, found, _⟩ := above_plain reachable (onWay last (List.mem_of_getLast? atEnd))
    cases raised.symm.trans found
  · cases raised.symm.trans (TypeArguments.substitute_eq_ok (onWay b member).bound q.typeText)

/-- **What type arguments become.** Where the declarations have different words for parameters and no backslash in their
bases, and the arguments have none, the properties of a type are found, as they are on a way up to its end. In the text
of each property and of each base, all arguments of the declaration are put in at once, but each argument has first had
the later ones put in. That is putting in the arguments themselves, whatever the text, just for the declarations on the
way where no argument changes when the later ones are put in: so it is if none names a parameter after its own. -/
theorem propertiesOf_typeArguments (c : Catalog) (r : ResolvedType) (d : TypeDescriptor)
    (declared : r.descriptor? = some d) (plain : d.Plain) (reachable : ∀ d ∈ c.reachable, d.Plain)
    (unescaped : ∀ a ∈ r.arguments, '\\' ∉ a) :
    ∃ way ps, c.IsWayUp (.of d r.arguments) way ∧ c.Ended [] way ∧ c.propertiesOf r = .ok ps ∧ Inherits way ps ∧
      (∀ p ∈ ps, ∃ a ∈ way, ∃ q ∈ a.properties, p = { q with typeText := a.bound.chained.atOnce q.typeText }) ∧
      ∀ a ∈ way, (∃ arguments, a.bound = a.descriptor.typeParameters.zip arguments) ∧
        (∀ base ∈ a.descriptor.baseType, base ≠ [] →
          c.above a = .ok ((c.resolve (a.bound.chained.atOnce base)).descriptor?.map
            (Ancestor.of · (c.resolve (a.bound.chained.atOnce base)).arguments))) ∧
        ((∀ t, a.bound.chained.atOnce t = a.bound.atOnce t) ↔ a.bound.Settled) ∧
        ((a.bound.Pairwise fun entry later => later.1 ∉ Text.runWords entry.2) → a.bound.Settled) := by
  have start : (Ancestor.of d r.arguments).Plain := plain.ancestor unescaped
  obtain ⟨way, up, ⟨ps, found, ended, inherits⟩ | ⟨e, _, raises⟩⟩ := propertiesOf_outcome c declared
  · have onWay := plain_of_isWayUp reachable start up
    refine ⟨way, ps, up, ended, found, inherits, ?_, ?_⟩
    · intro p member
      obtain ⟨lower, a, higher, q, rfl, _, first, put, same⟩ := inherits.baseMost p member
      have plainHere := onWay a (by simp)
      rw [TypeArguments.substitute_eq_ok plainHere.bound, Except.ok.injEq] at put
      exact ⟨a, by simp, q, List.mem_of_find?_eq_some first, put ▸ same⟩
    · intro a member
      have plainHere := onWay a member
      refine ⟨plainHere.paired, ?_, ?_, TypeArguments.settled_of_unnamed⟩
      · intro base written given
        exact above_plain_eq plainHere written given
      · exact TypeArguments.atOnce_chained_iff plainHere.distinct plainHere.words
  · exact absurd raises (not_raises reachable start up e)

def keyedPair : TypeDescriptor :=
  ⟨"Keyed", .classType, [⟨"Key", "K", none, none, false⟩], some "Pair<K, int>", ["K"], [], none⟩

/-- a pair of two types, a type named as the pair's second parameter, and a pair of a key and a number -/
def pairs : Catalog :=
  .ofList [
    ⟨"U", .classType, [⟨"Id", "int", none, none, false⟩], none, [], [], none⟩,
    ⟨"Pair", .classType, [⟨"First", "T", none, none, false⟩, ⟨"Second", "U", none, none, false⟩], none, ["T", "U"], [],
      none⟩,
    keyedPair]

/-- A key of the type `U` is a number in the pair. -/
theorem propertiesOf_typeArguments_pair :
    ∃ way ps, pairs.IsWayUp (.of keyedPair ["U"]) way ∧ pairs.propertiesOf (pairs.resolve "Keyed<U>") = .ok ps ∧
      ps.map (fun p => (p.name, p.typeText)) = ([("First", "int"), ("Second", "int"), ("Key", "U")] : List (Text × Text)) ∧
      ∀ p ∈ ps, ∃ a ∈ way, ∃ q ∈ a.properties, p = { q with typeText := a.bound.chained.atOnce q.typeText } := by
  have resolved : pairs.resolve "Keyed<U>" = .object "Keyed" false keyedPair ["U"] := by decide +kernel
  obtain ⟨way, ps, up, _, found, _, texts, _⟩ := propertiesOf_typeArguments pairs (pairs.resolve "Keyed<U>") keyedPair
    (by rw [resolved]; rfl) (by decide) (by decide) (by rw [resolved]; decide)
  rw [resolved] at up
  have types : (pairs.propertiesOf (pairs.resolve "Keyed<U>")).map (·.map fun p => (p.name, p.typeText)) =
      .ok [("First", "int"), ("Second", "int"), ("Key", "U")] := by decide +kernel
  rw [found] at types
  exact ⟨way, ps, up, found, Except.ok.inj types, texts⟩

end Catalog

end EndpointSurvey
