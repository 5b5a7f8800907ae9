/-
What the values of settings have to be where they are used, and how reading them fails. Each use fails exactly for the
values that it cannot take, whatever else it is given. Errors of settings are told apart from what is no such error: a
list or an object among the names to pass over, bytes that are no text, and a path that is none.

Main statements: `fails_newCache` (no cache is made of a number below one), `fails_ignores`, `fails_exceedsLimit`,
`fails_threshold`, `fails_path?`, `breaks_ofFile?` (what is no error of settings comes from the file's path, its bytes, or
its names to pass over) and `not_breaks_ofVariables?`.
-/
import EndpointSurvey.Proofs.Failing
import EndpointSurvey.Proofs.Project.Places
import EndpointSurvey.Settings.Meaning
import EndpointSurvey.Settings.Reading

namespace EndpointSurvey

namespace Json

/-- the value has names in it: a list, an object, or a text -/
def HoldsNames : Json → Prop
  | .array _ | .object _ | .string _ => True
  | _ => False

/-- the value is a number, as truth values are -/
def IsNumber : Json → Prop
  | .bool _ | .int _ | .float _ => True
  | _ => False

/-- the value is a number, and not one below one -/
def HasRoom : Json → Prop
  | .bool b => b = true
  | .int n => 1 ≤ n
  | .float v => v.ltRatio 1 1 = false
  | _ => False

/-- the value is a text that is not taken for the layout of a log's records, or for their table -/
def NamesLevel : Json → Prop
  | .string t => t.upper ≠ Settings.layoutName ∧ t.upper ≠ Settings.tableName
  | _ => False

/-- the value counts as absent, or is a text -/
def AbsentOrText (v : Json) : Prop := v.isEmpty = true ∨ ∃ t, v = .string t

end Json

namespace Settings

variable {s : Settings}

theorem fails_ignores {name : Text} : Fails (s.ignores name) ↔ ¬ s.ignored.HoldsNames := by
  unfold ignores
  cases s.ignored <;> simp [Json.HoldsNames]

theorem fails_exceedsLimit (bytes : Nat) : Fails (s.exceedsLimit bytes) ↔ ¬ s.maxFileSize.IsNumber := by
  unfold exceedsLimit
  cases s.maxFileSize <;> simp [Json.IsNumber]

theorem fails_cacheFor {α : Type} {n : Nat} : Fails (cacheFor α n) ↔ n < 1 := by
  unfold cacheFor DocumentCache.ofCapacity?
  by_cases room : 0 < n
  · simp [room]
    omega
  · simp [room]
    omega

/-- No cache is made of a number below one, nor of anything that is no number. -/
theorem fails_newCache {α : Type} : Fails (s.newCache α) ↔ ¬ s.cacheSize.HasRoom := by
  unfold newCache
  cases s.cacheSize with
  | bool b => cases b <;> simp [fails_cacheFor, Json.HasRoom]
  | int n =>
    rw [fails_cacheFor, Json.HasRoom]
    omega
  | float v =>
    cases v with
    | finite negative m e =>
      cases negative with
      | true => simp [Json.HasRoom, Binary64.ltRatio]
      | false =>
        have positive : 0 < (Binary64.ratio m e).2 := by
          unfold Binary64.ratio
          split
          · exact Nat.one_pos
          · exact Nat.two_pow_pos _
        simp only [Json.HasRoom, Binary64.ltRatio, fails_cacheFor, Nat.lt_one_iff, Nat.div_eq_zero_iff_lt positive]
        simp
    | infinite negative => cases negative <;> simp [Json.HasRoom, Binary64.ltRatio]
    | undefined => simp [Json.HasRoom, Binary64.ltRatio]
  | _ => simp [Json.HasRoom]

theorem fails_threshold : Fails s.threshold ↔ ¬ s.logLevel.NamesLevel := by
  unfold threshold
  cases s.logLevel with
  | string t =>
    dsimp only [Json.NamesLevel]
    split
    · next layout => simp [layout]
    · next other =>
      split
      · next table => simp [table]
      · next none => simp [other, none]
  | _ => simp [Json.NamesLevel]

theorem fails_path? {v : Json} : Fails (path? v) ↔ ¬ v.AbsentOrText := by
  unfold path? Json.AbsentOrText
  by_cases absent : v.isEmpty = true
  · simp [absent]
  · cases v <;> simp [absent]

end Settings

/-! ## Reading -/

/-- what shows in reading settings and is no error of settings -/
def SettingsError.Breaks : SettingsError → Prop
  | .unhashable _ | .notText _ => True
  | .unreadableFile _ fault => fault = .nullCharacter
  | _ => False

/-- a list or an object -/
def Json.IsContainer : Json → Prop
  | .array _ | .object _ => True
  | _ => False

namespace Settings

open SettingsError (Breaks)

/-- The values of a list are put together unless one of them is a list or an object. -/
theorem breaks_entrySet {kept items : List Json} :
    FailsAs Breaks (entrySet kept items) ↔ ∃ item ∈ items, item.IsContainer := by
  induction items generalizing kept with
  | nil => simp [entrySet]
  | cons item rest ih =>
    rw [List.exists_mem_cons_iff]
    cases item <;> simp [entrySet, Breaks, Json.IsContainer, ih]

theorem not_breaks_withMembers {path : Text} {s : Settings} (members : List (Text × Json)) :
    ¬ FailsAs Breaks (withMembers path s members) := by
  induction members generalizing s with
  | nil => simp [withMembers]
  | cons member rest ih =>
    obtain ⟨name, value⟩ := member
    rw [withMembers]
    split
    · simp [Breaks]
    · split
      · exact ih
      · simp [Breaks]

/-- the object has a list of names to pass over with a list or an object in it -/
def ListsContainer (members : List (Text × Json)) : Prop :=
  ∃ items, Entries.lookup? "ignore_dirs" members = some (.array items) ∧ ∃ item ∈ items, item.IsContainer

theorem breaks_withEntrySet {members : List (Text × Json)} :
    FailsAs Breaks (withEntrySet members) ↔ ListsContainer members := by
  unfold withEntrySet ListsContainer
  split
  · next items listed =>
    rw [listed, failsAs_bind, breaks_entrySet]
    simp
  · next other =>
    refine iff_of_false (failsAs_ok _) ?_
    rintro ⟨items, listed, -⟩
    exact other items listed

theorem breaks_ofContent? {path content : Text} : FailsAs Breaks (ofContent? path content) ↔
    ∃ members, Json.ofFile? path content = some (.object members) ∧ ListsContainer members := by
  unfold ofContent?
  split
  · next none => simp [none, Breaks]
  · next members given =>
    rw [failsAs_bind, breaks_withEntrySet, or_iff_left]
    · simp [given]
    · rintro ⟨entered, -, failing⟩
      rw [failsAs_bind, or_iff_right (not_breaks_withMembers entered)] at failing
      obtain ⟨s, -, failing⟩ := failing
      exact failing
  · next v other given =>
    refine iff_of_false (by simp [Breaks]) ?_
    rintro ⟨members, object, -⟩
    rw [given, Option.some_inj] at object
    exact other members object

/-- what breaks the reading of a file of settings -/
inductive FileBreaks (t : FileTree) (path : Text) : Prop
  /-- the path is none -/
  | path (null : '\x00' ∈ path)
  /-- the bytes are no text -/
  | bytes {bytes : List UInt8} {fault : Utf8.Fault} (there : t.read path = .ok bytes)
      (undecoded : Json.fileText? path bytes = .error fault)
  /-- a list or an object stands among the names to pass over -/
  | ignored {bytes : List UInt8} {content : Text} {members : List (Text × Json)} (there : t.read path = .ok bytes)
      (decoded : Json.fileText? path bytes = .ok content) (written : Json.ofFile? path content = some (.object members))
      (listed : ListsContainer members)

/-- What breaks in reading a file of settings is its path, its bytes, or a list or an object among the names to pass
over. -/
theorem breaks_ofFile? {t : FileTree} {path : Text} : FailsAs Breaks (ofFile? t path) ↔ FileBreaks t path := by
  unfold ofFile?
  cases reading : t.read path with
  | error fault =>
    rw [failsAs_error, Breaks, FileTree.eq_nullCharacter_iff reading]
    refine ⟨.path, ?_⟩
    rintro (null | ⟨there, -⟩ | ⟨there, -, -, -⟩)
    · exact null
    · rw [reading] at there
      cases there
    · rw [reading] at there
      cases there
  | ok bytes =>
    dsimp only
    cases decoding : Json.fileText? path bytes with
    | error fault => exact iff_of_true trivial (.bytes reading decoding)
    | ok content =>
      dsimp only
      rw [breaks_ofContent?]
      constructor
      · exact fun ⟨members, written, listed⟩ => .ignored reading decoding written listed
      · rintro (null | ⟨there, undecoded⟩ | ⟨there, decoded, written, listed⟩)
        · exact absurd null (FileTree.not_mem_of_read reading)
        · obtain rfl := Except.ok.inj (reading.symm.trans there)
          rw [decoding] at undecoded
          cases undecoded
        · obtain rfl := Except.ok.inj (reading.symm.trans there)
          obtain rfl := Except.ok.inj (decoding.symm.trans decoded)
          exact ⟨_, written, listed⟩

/-- Whatever is wrong with variables is an error of settings. -/
theorem not_breaks_ofVariables? (vars : Entries Text) : ¬ FailsAs Breaks (ofVariables? vars) := by
  have number : ∀ (setting : Text) (otherwise : Int), ¬ FailsAs Breaks (integer vars setting otherwise) := by
    intro setting otherwise
    unfold integer
    split
    · simp
    · split <;> simp [Breaks]
  unfold ofVariables?
  simp only [failsAs_bind, number, false_or, failsAs_pure, and_false, exists_false, not_false_eq_true]

end Settings

end EndpointSurvey
