/-
Binding looks at a catalog only for the kinds of the types it declares, and cites a place only in warnings.

Main statements: `resolve_alike` (catalogs with the same kinds resolve types to the same shape) and
`bindParameters_alike` (and bind parameters alike).
-/
import EndpointSurvey.Binding.Classification
import EndpointSurvey.Proofs.Attribute.GroupContents

namespace EndpointSurvey

/-- catalogs that declare types of the same kinds under the same names -/
def Catalog.Alike (c c' : Catalog) : Prop := ∀ name, (c'.get? name).map (·.kind) = (c.get? name).map (·.kind)

/-- resolved types that bind from the same parts of a request -/
structure ResolvedType.Alike (r r' : ResolvedType) : Prop where
  simple : r'.isSimple = r.isSimple
  file : r'.isFile = r.isFile
  collection : r'.isCollection = r.isCollection

namespace ResolvedType.Alike

theorem refl (r : ResolvedType) : Alike r r := ⟨rfl, rfl, rfl⟩

theorem asNullable {r r' : ResolvedType} (h : Alike r r') : Alike r.asNullable r'.asNullable := by
  have same : ∀ r : ResolvedType, Alike r r.asNullable := by
    intro r
    cases r <;> exact ⟨rfl, rfl, rfl⟩
  exact ⟨((same r').simple.trans h.simple).trans (same r).simple.symm,
    ((same r').file.trans h.file).trans (same r).file.symm,
    ((same r').collection.trans h.collection).trans (same r).collection.symm⟩

end ResolvedType.Alike

namespace Catalog

variable {c c' : Catalog}

theorem resolveName_alike (h : Alike c c') (name : Text) (nullable : Bool) :
    ResolvedType.Alike (c.resolveName name nullable) (c'.resolveName name nullable) := by
  have kinds := h name
  unfold resolveName
  simp only
  split
  · exact ResolvedType.Alike.refl _
  · split
    · exact ResolvedType.Alike.refl _
    · split
      · exact ResolvedType.Alike.refl _
      · cases known : c.get? name with
        | none =>
          rw [known, Option.map_none, Option.map_eq_none_iff] at kinds
          rw [kinds]
          exact ResolvedType.Alike.refl _
        | some d =>
          rw [known, Option.map_some, Option.map_eq_some_iff] at kinds
          obtain ⟨d', known', same⟩ := kinds
          rw [known']
          simp only [same]
          split <;> exact ⟨rfl, rfl, rfl⟩

theorem resolveGeneric_alike (h : Alike c c') (name : Text) (nullable : Bool) (arguments : List Text) :
    ResolvedType.Alike (c.resolveGeneric name nullable arguments) (c'.resolveGeneric name nullable arguments) := by
  have kinds := h name
  unfold resolveGeneric
  cases known : c.get? name with
  | none =>
    rw [known, Option.map_none, Option.map_eq_none_iff] at kinds
    rw [kinds]
    exact ResolvedType.Alike.refl _
  | some d =>
    rw [known, Option.map_some, Option.map_eq_some_iff] at kinds
    obtain ⟨d', known', -⟩ := kinds
    rw [known']
    exact ⟨rfl, rfl, rfl⟩

theorem resolveWithin_alike (h : Alike c c') (layers : Nat) (t : Text) :
    ResolvedType.Alike (c.resolveWithin layers t) (c'.resolveWithin layers t) := by
  induction layers generalizing t with
  | zero => exact ResolvedType.Alike.refl _
  | succ layers ih =>
    unfold resolveWithin
    simp only
    split
    · exact ResolvedType.Alike.refl _
    · next element _ =>
      split
      · exact ResolvedType.Alike.refl _
      · exact ⟨(ih element).simple, (ih element).file, rfl⟩
    · split
      · exact resolveGeneric_alike h _ _ _
      · next first rest _ =>
        split
        · split
          · exact (ih first).asNullable
          · exact ih first
        · split
          · exact ⟨(ih first).simple, (ih first).file, rfl⟩
          · split
            · exact ⟨rfl, rfl, rfl⟩
            · exact resolveGeneric_alike h _ _ _
    · exact resolveName_alike h _ _

/-- Catalogs with the same kinds resolve types to the same shape. -/
theorem resolve_alike (h : Alike c c') (t : Text) : ResolvedType.Alike (c.resolve t) (c'.resolve t) :=
  resolveWithin_alike h layerLimit t

end Catalog

namespace Binding

/-- contexts that differ in the place that warnings cite, and in what the types of the catalog hold -/
structure Context.Alike (context context' : Context) : Prop where
  method : context'.method = context.method
  tokens : context'.tokens = context.tokens
  catalog : context.catalog.Alike context'.catalog

variable {context context' : Context}

theorem bindOne_alike (h : context.Alike context') (holders : Holders) (marks : List Attribute) (raw : RawParameter) :
    bindOne context' holders marks raw = bindOne context holders marks raw := by
  obtain ⟨simple, file, collection⟩ := Catalog.resolve_alike h.catalog raw.typeText
  unfold bindOne sourceOf
  simp only [simple, file, collection, h.method, h.tokens]

theorem hold_alike (h : context.Alike context') (holders : Holders) (p : Parameter) :
    hold context' holders p = hold context holders p := by
  unfold hold
  simp only [h.tokens]

theorem bindAll_alike (h : context.Alike context') (holders : Holders) (raws : List RawParameter) :
    (bindAll context' holders raws).value = (bindAll context holders raws).value := by
  induction raws generalizing holders with
  | nil => rfl
  | cons raw rest ih =>
    simp only [bindAll, Traced.value_bind, value_attributes]
    split
    · simp only [Traced.value_bind]
      exact ih holders
    · simp only [Traced.value_bind, Traced.value_pure, bindOne_alike h, hold_alike h, ih]

/-- **Binding.** Contexts that differ in the place alone, and in what the types of their catalogs hold, bind parameters
alike, with the same problems cited at their own places. -/
theorem bindParameters_alike (h : context.Alike context') (subject : Option Text) (raws : List RawParameter) :
    (bindParameters context' subject raws).value.parameters = (bindParameters context subject raws).value.parameters ∧
      ∃ problems : List Problem,
        (bindParameters context subject raws).value.warnings = problems.map (⟨·, context.location, subject⟩) ∧
          (bindParameters context' subject raws).value.warnings = problems.map (⟨·, context'.location, subject⟩) := by
  have bound := bindAll_alike h [] raws
  have unheld_alike : ∀ holders, unheld context' holders = unheld context holders := by
    intro holders
    unfold unheld
    rw [h.tokens]
  simp only [bindParameters, Traced.value_bind, Traced.value_pure, bound, unheld_alike]
  exact ⟨trivial, _, rfl, rfl⟩

end Binding

end EndpointSurvey
