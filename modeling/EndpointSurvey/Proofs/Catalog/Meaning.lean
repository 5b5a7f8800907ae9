/-
What a type means by its structure, and that resolving its text finds it.

Main statements: `resolveWithin_nullable` (a question mark is passed over on what is looked through, and else makes the
type nullable), `resolveWithin_text` (by induction over the type) and `resolve_text`.
-/
import EndpointSurvey.Catalog.Resolution
import EndpointSurvey.Proofs.Rendered.TypeTrees
import EndpointSurvey.Proofs.Text.LowerCase

namespace EndpointSurvey

open Rendered

namespace Catalog

/-- what a name stands for -/
def named (c : Catalog) (name : Text) : ResolvedType :=
  match Scalar.typeNames.find? (·.1 = name.lower) with
  | some (_, scalar) => .primitive name false scalar
  | none =>
    if fileNames.contains name.lower then .file name false
    else if untypedNames.contains name.lower then .untyped name false [] true
    else match c.get? name with
      | some d => if d.kind = .enumType then .enumeration name false d else .object name false d []
      | none => .untyped name false [] false

/-- a declared type with arguments; what is not declared stays untyped -/
def applied (c : Catalog) (name : Text) (arguments : List Text) : ResolvedType :=
  match c.get? name with
  | some d => .object name false d arguments
  | none => .untyped name false arguments false

end Catalog

namespace Rendered

/-- the last word of a name in small letters -/
def QualifiedName.key (n : QualifiedName) : Text := n.last.text.lower

def TypeTree.isByte : TypeTree → Bool
  | .name n => n.key == ("byte" : Text)
  | _ => false

/-- Is the type looked through? -/
def TypeTree.isWrapper : TypeTree → Bool
  | .generic n _ => Catalog.wrapperNames.contains n.key
  | .nullable t => t.isWrapper
  | _ => false

/-- Is a generic type of this name a layer around its arguments? -/
def QualifiedName.isLayer (n : QualifiedName) : Bool :=
  (Catalog.wrapperNames ++ Catalog.collectionNames ++ Catalog.dictionaryNames).contains n.key

mutual

/-- the most layers on any path into a type: arrays, wrappers, collections and dictionaries -/
def TypeTree.layers : TypeTree → Nat
  | .name _ => 0
  | .generic n arguments => arguments.layers + if n.isLayer then 1 else 0
  | .array element => element.layers + 1
  | .nullable t => t.layers

def TypeTrees.layers : TypeTrees → Nat
  | .one t => t.layers
  | .more t rest => max t.layers rest.layers

end

mutual

/-- what a type means in a catalog -/
def TypeTree.meaning (c : Catalog) : TypeTree → ResolvedType
  | .name n => c.named n.last.text
  | .generic n arguments =>
    if Catalog.wrapperNames.contains n.key then
      if n.key = ("nullable" : Text) then (arguments.firstMeaning c).asNullable else arguments.firstMeaning c
    else if Catalog.collectionNames.contains n.key then
      .collection (TypeTree.generic n arguments).text false (arguments.firstMeaning c)
    else if Catalog.dictionaryNames.contains n.key then
      .dictionary (TypeTree.generic n arguments).text false (arguments.lastMeaning c) arguments.texts
    else c.applied n.last.text arguments.texts
  | .array element =>
    if element.isByte then .primitive "byte[]" false .binary
    else .collection (TypeTree.array element).text false (element.meaning c)
  | .nullable t => if t.isWrapper then t.meaning c else (t.meaning c).asNullable

/-- what the first of a list of arguments means -/
def TypeTrees.firstMeaning (c : Catalog) : TypeTrees → ResolvedType
  | .one t => t.meaning c
  | .more t _ => t.meaning c

/-- what the last of a list of arguments means -/
def TypeTrees.lastMeaning (c : Catalog) : TypeTrees → ResolvedType
  | .one t => t.meaning c
  | .more _ rest => rest.lastMeaning c

end

end Rendered

namespace Catalog

variable {c : Catalog} {u : Text} {nullable : Bool}

/-! ## One layer -/

theorem lookup?_eq_find? {α : Type} (key : Text) (entries : Entries α) :
    Entries.lookup? key entries = (entries.find? (·.1 = key)).map (·.2) := by
  induction entries with
  | nil => rfl
  | cons entry rest ih =>
    rw [Entries.lookup?, List.find?_cons, ih]
    by_cases same : entry.1 = key <;> simp [same]

theorem resolveName_eq (c : Catalog) (name : Text) (nullable : Bool) : c.resolveName name nullable =
    if nullable then (c.named name).asNullable else c.named name := by
  unfold resolveName named
  simp only [lookup?_eq_find?]
  cases Scalar.typeNames.find? (·.1 = name.lower) with
  | some entry => cases nullable <;> rfl
  | none =>
    simp only [Option.map_none]
    split
    · cases nullable <;> rfl
    · split
      · cases nullable <;> rfl
      · cases c.get? name with
        | none => cases nullable <;> rfl
        | some d => cases nullable <;> (dsimp only; split <;> rfl)

theorem resolveGeneric_eq (c : Catalog) (name : Text) (nullable : Bool) (arguments : List Text) :
    c.resolveGeneric name nullable arguments =
      if nullable then (c.applied name arguments).asNullable else c.applied name arguments := by
  unfold resolveGeneric applied
  cases c.get? name <;> cases nullable <;> rfl

theorem resolveWithin_of_name {n : QualifiedName} (read : TypeText.ofText u = ⟨n.text, nullable⟩) (layers : Nat) :
    c.resolveWithin (layers + 1) u = c.resolveName n.last.text nullable := by
  rw [resolveWithin]
  simp only [read, n.form_name, n.unqualified_text]

/-- A type that ends with a mark is no byte. -/
theorem lower_ne_byte {t : TypeTree} {s : Text} {m : Char} (ends : t.text = s ++ [m])
    (mark : m ∈ (['>', ']', '?'] : Text)) : (unqualified t.text).lower ≠ ("byte" : Text) := by
  have marks : ∀ m ∈ (['>', ']', '?'] : Text),
      (m != '.') = true ∧ m.toNat < 128 ∧ m.toLower = m ∧ m ∉ ("byte" : Text) := by decide
  obtain ⟨dotless, low, small, absent⟩ := marks m mark
  have kept : m ∈ unqualified t.text := by
    have last := Text.takeEnd_append_of_all (p := (· != '.')) s (List.forall_mem_singleton.2 dotless)
    rw [unqualified, t.trim_text, ends, Text.afterLast, last]
    exact List.mem_append_right _ List.mem_cons_self
  exact fun byte => absent (byte ▸ mem_lower low small kept)

theorem isByte_iff (t : TypeTree) : t.isByte = true ↔ (unqualified t.text).lower = ("byte" : Text) := by
  cases t with
  | name n =>
    rw [TypeTree.text, n.unqualified_text]
    exact beq_iff_eq
  | generic n a =>
    refine iff_of_false Bool.false_ne_true (lower_ne_byte (s := n.text ++ '<' :: a.text) (m := '>') ?_ (by decide))
    simp [TypeTree.text]
  | array t =>
    refine iff_of_false Bool.false_ne_true (lower_ne_byte (s := t.text ++ ['[']) (m := ']') ?_ (by decide))
    simp [TypeTree.text]
  | nullable t => exact iff_of_false Bool.false_ne_true (lower_ne_byte (s := t.text) (m := '?') rfl (by decide))

theorem resolveWithin_of_array {t : TypeTree} (read : TypeText.ofText u = ⟨(TypeTree.array t).text, nullable⟩)
    (layers : Nat) :
    c.resolveWithin (layers + 1) u =
      if t.isByte then .primitive "byte[]" nullable .binary
      else .collection (TypeTree.array t).text nullable (c.resolveWithin layers t.text) := by
  rw [resolveWithin]
  simp only [read, t.form_array, isByte_iff]

theorem resolveWithin_of_generic {n : QualifiedName} {a : TypeTrees} {first : Text} {rest : List Text}
    (texts : a.texts = first :: rest) (read : TypeText.ofText u = ⟨(TypeTree.generic n a).text, nullable⟩) (layers : Nat) :
    c.resolveWithin (layers + 1) u =
      if wrapperNames.contains n.key then
        if n.key = ("nullable" : Text) then (c.resolveWithin layers first).asNullable else c.resolveWithin layers first
      else if collectionNames.contains n.key then
        .collection (TypeTree.generic n a).text nullable (c.resolveWithin layers first)
      else if dictionaryNames.contains n.key then
        .dictionary (TypeTree.generic n a).text nullable (c.resolveWithin layers (rest.getLastD first)) a.texts
      else c.resolveGeneric n.last.text nullable a.texts := by
  rw [resolveWithin]
  simp only [read, n.form_generic, n.unqualified_text, texts]
  rfl

/-! ## Question marks -/

theorem asNullable_asNullable (r : ResolvedType) : r.asNullable.asNullable = r.asNullable := by cases r <;> rfl

theorem resolveWithin_congr {v : Text} (same : TypeText.ofText u = TypeText.ofText v) (layers : Nat) :
    c.resolveWithin layers u = c.resolveWithin layers v := by
  cases layers <;> simp only [resolveWithin, same]

/-- A question mark is passed over on a type that is looked through, and makes every other type nullable. -/
theorem resolveWithin_nullable (c : Catalog) (layers : Nat) (t : TypeTree) :
    c.resolveWithin (layers + 1) (TypeTree.nullable t).text =
      if t.isWrapper then c.resolveWithin (layers + 1) t.text else (c.resolveWithin (layers + 1) t.text).asNullable := by
  fun_induction TypeTree.isWrapper t with
  | case1 n a =>
    have marked : TypeText.ofText (TypeTree.nullable (.generic n a)).text = ⟨(TypeTree.generic n a).text, true⟩ := by
      rw [TypeTree.ofText_nullable, n.ofText_generic]
    obtain ⟨first, rest, texts⟩ := a.exists_texts
    rw [resolveWithin_of_generic texts marked, resolveWithin_of_generic texts (n.ofText_generic a), resolveGeneric_eq,
      resolveGeneric_eq]
    by_cases wrapper : wrapperNames.contains n.key = true
    · rw [if_pos wrapper, if_pos wrapper, if_pos wrapper]
    · rw [if_neg wrapper, if_neg wrapper, if_neg wrapper]
      by_cases collection : collectionNames.contains n.key = true
      · rw [if_pos collection, if_pos collection]
        rfl
      · rw [if_neg collection, if_neg collection]
        by_cases dictionary : dictionaryNames.contains n.key = true
        · rw [if_pos dictionary, if_pos dictionary]
          rfl
        · rw [if_neg dictionary, if_neg dictionary]
          rfl
  | case2 t ih =>
    -- a second question mark says no more than the first
    have again : TypeText.ofText (TypeTree.nullable (.nullable t)).text =
        TypeText.ofText (TypeTree.nullable t).text := by
      rw [TypeTree.ofText_nullable, TypeTree.ofText_nullable]
    rw [resolveWithin_congr again, ih]
    by_cases wrapper : t.isWrapper = true <;> simp [wrapper, asNullable_asNullable]
  | case3 t notGeneric notNullable =>
    rw [if_neg Bool.false_ne_true]
    cases t with
    | name n =>
      have marked : TypeText.ofText (TypeTree.nullable (.name n)).text = ⟨n.text, true⟩ := by
        rw [TypeTree.ofText_nullable, TypeTree.text, n.ofText_name]
      rw [resolveWithin_of_name marked, TypeTree.text, resolveWithin_of_name n.ofText_name, resolveName_eq,
        resolveName_eq]
      rfl
    | generic n a => exact absurd rfl (notGeneric n a)
    | array t =>
      have marked : TypeText.ofText (TypeTree.nullable (.array t)).text = ⟨(TypeTree.array t).text, true⟩ := by
        rw [TypeTree.ofText_nullable, t.ofText_array]
      rw [resolveWithin_of_array marked, resolveWithin_of_array t.ofText_array]
      by_cases byte : t.isByte = true <;> simp [byte, ResolvedType.asNullable]
    | nullable t => exact absurd rfl (notNullable t)

/-! ## Every type -/

mutual

theorem resolveWithin_text (c : Catalog) : ∀ (t : TypeTree) (layers : Nat), t.layers ≤ layers →
    c.resolveWithin (layers + 1) t.text = t.meaning c
  | .name n, layers, _ => by
    rw [TypeTree.text, resolveWithin_of_name n.ofText_name, resolveName_eq, TypeTree.meaning]
    rfl
  | .generic n a, layers, within => by
    obtain ⟨first, rest, texts⟩ := a.exists_texts
    rw [resolveWithin_of_generic texts (n.ofText_generic a), resolveGeneric_eq, TypeTree.meaning]
    by_cases layer : n.isLayer = true
    · rw [TypeTree.layers, if_pos layer] at within
      cases layers with
      | zero => omega
      | succ layers =>
        obtain ⟨first', rest', texts', here, last⟩ := resolveWithin_texts c a layers (Nat.le_of_succ_le_succ within)
        obtain ⟨rfl, rfl⟩ := List.cons.inj (texts.symm.trans texts')
        simp only [here, last, Bool.false_eq_true, if_false]
    · have names : wrapperNames.contains n.key = false ∧ collectionNames.contains n.key = false ∧
          dictionaryNames.contains n.key = false := by
        simpa [QualifiedName.isLayer] using layer
      simp only [names, if_false, Bool.false_eq_true]
  | .array t, layers, within => by
    rw [TypeTree.layers] at within
    rw [resolveWithin_of_array t.ofText_array, TypeTree.meaning]
    cases layers with
    | zero => omega
    | succ layers => rw [resolveWithin_text c t layers (Nat.le_of_succ_le_succ within)]
  | .nullable t, layers, within => by
    rw [resolveWithin_nullable, resolveWithin_text c t layers within, TypeTree.meaning]

theorem resolveWithin_texts (c : Catalog) : ∀ (a : TypeTrees) (layers : Nat), a.layers ≤ layers →
    ∃ first rest, a.texts = first :: rest ∧ c.resolveWithin (layers + 1) first = a.firstMeaning c ∧
      c.resolveWithin (layers + 1) (rest.getLastD first) = a.lastMeaning c
  | .one t, layers, within => ⟨t.text, [], rfl, resolveWithin_text c t layers within, resolveWithin_text c t layers within⟩
  | .more t rest, layers, within => by
    obtain ⟨first, others, texts, _, last⟩ := resolveWithin_texts c rest layers (Nat.le_trans (Nat.le_max_right _ _) within)
    refine ⟨t.text, rest.texts, rfl, resolveWithin_text c t layers (Nat.le_trans (Nat.le_max_left _ _) within), ?_⟩
    rw [texts, TypeTrees.lastMeaning, ← last, List.getLastD_cons]

end

/-- **Resolving the text of a type finds what it means by its structure**: in every catalog, for every type made of names
with dots in them, generic types, arrays and question marks, on no path of which more than twelve arrays, wrappers,
collections and dictionaries stand one in another. -/
theorem resolve_text (c : Catalog) (t : TypeTree) (within : t.layers ≤ 12) : c.resolve t.text = t.meaning c :=
  resolveWithin_text c t 12 within

def orderType : TypeDescriptor := ⟨"Order", .classType, [⟨"Id", "int", none, none, false⟩], none, [], [], none⟩

/-- a dictionary from names to arrays of orders, which both may be null, in a task -/
def ordersByName : TypeTree :=
  .nullable (.generic ⟨[⟨"Tasks", by decide, by decide⟩], ⟨"Task", by decide, by decide⟩⟩ (.one (.nullable
    (.generic ⟨[], ⟨"Dictionary", by decide, by decide⟩⟩ (.more (.name ⟨[], ⟨"string", by decide, by decide⟩⟩)
      (.one (.array (.nullable
        (.name ⟨[⟨"Models", by decide, by decide⟩], ⟨"Order", by decide, by decide⟩⟩)))))))))

/-- The question mark behind the task is passed over. -/
theorem resolve_text_ordersByName :
    ordersByName.text = "Tasks.Task<Dictionary<string, Models.Order?[]>?>?" ∧ ordersByName.layers ≤ 12 ∧
      (Catalog.ofList [orderType]).resolve ordersByName.text =
        .dictionary "Dictionary<string, Models.Order?[]>" true
          (.collection "Models.Order?[]" false (.object "Order" true orderType [])) ["string", "Models.Order?[]"] := by
  have meaning : ordersByName.meaning (Catalog.ofList [orderType]) =
      .dictionary "Dictionary<string, Models.Order?[]>" true
        (.collection "Models.Order?[]" false (.object "Order" true orderType [])) ["string", "Models.Order?[]"] := by
    decide +kernel
  have within : ordersByName.layers ≤ 12 := by decide +kernel
  exact ⟨by decide +kernel, within, meaning ▸ resolve_text (Catalog.ofList [orderType]) ordersByName within⟩

end Catalog

end EndpointSurvey
