/-
What stops a survey on its way: a setting that is of no use, once it is used.

Main statements: `Listing.fails_ofTarget` (names to pass over are needed as soon as a name is looked at) and
`Survey.fault_run_iff` (a survey is stopped by its names to pass over, or by its size limit once a file is listed).
-/
import EndpointSurvey.Project.Survey
import EndpointSurvey.Proofs.Project.Places
import EndpointSurvey.Proofs.Settings.Reading

namespace EndpointSurvey

/-! ## Listing -/

namespace Listing

variable {s : Settings} {t : FileTree} {target : Text} {place : Place} {names : List Text}

theorem fails_ignoresAny : Fails (ignoresAny s names) ↔ names ≠ [] ∧ ¬ s.ignored.HoldsNames := by
  by_cases held : s.ignored.HoldsNames
  · have passes : ¬ Fails (ignoresAny s names) := by
      induction names with
      | nil => simp [ignoresAny, pure, Except.pure]
      | cons name rest ih =>
        obtain ⟨passed, decided⟩ := not_fails_iff.1 fun failing => Settings.fails_ignores.1 failing held
        rw [ignoresAny, List.anyM_cons, decided]
        cases passed with
        | true => exact not_fails_ok _
        | false => exact ih
    exact iff_of_false passes fun both => both.2 held
  · cases names with
    | nil => simp [ignoresAny, pure, Except.pure]
    | cons name rest =>
      refine iff_of_true ?_ ⟨List.cons_ne_nil _ _, held⟩
      rw [ignoresAny, List.anyM_cons, fails_bind]
      exact .inl (Settings.fails_ignores.2 held)

/-- A file's standing depends on the names to pass over if it lies in a directory, or is a source file. -/
theorem fails_standing (inhabited : names ≠ []) : Fails (standing s names) ↔
    (1 < names.length ∨ (extension (names.getLast?.getD [])).lower = sourceExtension) ∧ ¬ s.ignored.HoldsNames := by
  have nested : names.dropLast ≠ [] ↔ 1 < names.length := by
    rw [← List.length_pos_iff, List.length_dropLast]
    omega
  unfold standing
  rw [fails_bind, fails_ignoresAny, nested]
  by_cases held : s.ignored.HoldsNames
  · simp only [held, not_true_eq_false, and_false, false_or, iff_false]
    rintro ⟨hidden, -, failing⟩
    split at failing
    · exact failing
    · split at failing
      · exact failing
      · rw [fails_bind, fails_ignoresAny] at failing
        rcases failing with both | ⟨passed, -, failing⟩
        · exact both.2 held
        · split at failing <;> exact failing
  · by_cases deep : 1 < names.length
    · simp [deep, held]
    · have flat : names.dropLast = [] := by simpa using mt nested.1 deep
      have shown : ignoresAny s names.dropLast = .ok false := by rw [flat]; rfl
      simp only [deep, false_or, shown, Except.ok.injEq, exists_eq_left', Bool.false_eq_true, if_false, held,
        not_false_eq_true, and_true]
      split
      · next other => simpa [pure, Except.pure] using other
      · next source =>
        refine iff_of_true ?_ (by simpa using source)
        rw [fails_bind, fails_ignoresAny]
        exact .inl ⟨inhabited, held⟩

theorem ne_nil_of_mem_below {places : List Place}
    (h : names ∈ (places.filter (FileTree.below place)).map (·.drop place.length)) : names ≠ [] := by
  obtain ⟨found, member, rfl⟩ := List.mem_map.1 h
  have within := (List.mem_filter.1 member).2
  simp only [FileTree.below, Bool.and_eq_true, decide_eq_true_eq] at within
  rw [Ne, List.drop_eq_nil_iff]
  omega

/-- there is a name to look at below a place: a directory's, or a source file's -/
def Looks (t : FileTree) (place : Place) : Prop :=
  t.directoriesBelow place ≠ [] ∨
    ∃ names ∈ t.walk place, 1 < names.length ∨ (extension (names.getLast?.getD [])).lower = sourceExtension

theorem fails_ofDirectory : Fails (ofDirectory s t target place) ↔ Looks t place ∧ ¬ s.ignored.HoldsNames := by
  have directories : Fails ((t.directoriesBelow place).mapM (ignoresAny s)) ↔
      t.directoriesBelow place ≠ [] ∧ ¬ s.ignored.HoldsNames := by
    rw [fails_mapM]
    constructor
    · rintro ⟨names, there, failing⟩
      exact ⟨List.ne_nil_of_mem there, (fails_ignoresAny.1 failing).2⟩
    · rintro ⟨some_there, held⟩
      obtain ⟨names, there⟩ := List.exists_mem_of_ne_nil _ some_there
      exact ⟨names, there, fails_ignoresAny.2 ⟨ne_nil_of_mem_below there, held⟩⟩
  have files : Fails ((t.walk place).mapM fun names => do pure (names, ← standing s names)) ↔
      (∃ names ∈ t.walk place, 1 < names.length ∨ (extension (names.getLast?.getD [])).lower = sourceExtension) ∧
        ¬ s.ignored.HoldsNames := by
    have each : ∀ names, Fails (do pure (names, ← standing s names)) ↔ Fails (standing s names) := by
      intro names
      rw [fails_bind, or_iff_left]
      exact fun ⟨_, _, failing⟩ => failing
    simp only [fails_mapM, each]
    constructor
    · rintro ⟨names, there, failing⟩
      obtain ⟨looked, held⟩ := (fails_standing (ne_nil_of_mem_below (List.mem_mergeSort.1 there))).1 failing
      exact ⟨⟨names, there, looked⟩, held⟩
    · rintro ⟨⟨names, there, looked⟩, held⟩
      exact ⟨names, there, (fails_standing (ne_nil_of_mem_below (List.mem_mergeSort.1 there))).2 ⟨looked, held⟩⟩
  have passes : ∀ {α : Type} {x : Except SettingFault α} {f : α → Listing}, Fails (do pure (f (← x))) ↔ Fails x := by
    intro α x f
    cases x <;> simp [bind, Except.bind, pure, Except.pure]
  unfold ofDirectory Looks
  rw [fails_bind, passes, directories, files, or_and_right]
  constructor
  · rintro (failing | ⟨-, -, failing⟩)
    · exact .inl failing
    · exact .inr failing
  · rintro (failing | failing)
    · exact .inl failing
    · by_cases first : Fails ((t.directoriesBelow place).mapM (ignoresAny s))
      · exact .inl (directories.1 first)
      · obtain ⟨looked, done⟩ := not_fails_iff.1 first
        exact .inr ⟨looked, done, failing⟩

/-- The names to pass over have to be some as soon as there is a name to look at below a directory. -/
theorem fails_ofTarget : Fails (ofTarget s t target) ↔
    (∃ place, t.locate (tidyPath target) = .ok place ∧ t.holdsFile place = false ∧ Looks t place) ∧
      ¬ s.ignored.HoldsNames := by
  unfold ofTarget
  cases located : t.locate (tidyPath target) with
  | error fault => simp
  | ok place =>
    simp only [Except.ok.injEq, exists_eq_left']
    cases file : t.holdsFile place with
    | true => simp
    | false => simp [fails_ofDirectory]

/-- What a walk finds is there. -/
theorem holdsFile_of_mem_walk (h : names ∈ t.walk place) : t.holdsFile (place ++ names) = true := by
  obtain ⟨found, member, rfl⟩ := List.mem_map.1 (List.mem_mergeSort.1 h)
  obtain ⟨there, within⟩ := List.mem_filter.1 member
  obtain ⟨entry, listed, rfl⟩ := List.mem_map.1 there
  simp only [FileTree.below, Bool.and_eq_true] at within
  obtain ⟨rest, whole⟩ := List.isPrefixOf_iff_prefix.1 within.1
  rw [← whole, List.drop_left, FileTree.holdsFile, FileTree.content?, Option.isSome_map, List.find?_isSome]
  exact ⟨entry, listed, by simp [whole]⟩

/-- What a target stands for is there. -/
theorem holdsFile_of_mem {listing : Listing} (h : ofTarget s t target = .ok listing) {file : ListedFile}
    (member : file ∈ listing.files) : t.holdsFile file.place = true := by
  unfold ofTarget at h
  split at h
  · cases h
    cases member
  · next place located =>
    split at h
    · next there =>
      cases h
      rw [List.mem_singleton.1 member]
      exact there
    · obtain ⟨names, walked, same, -⟩ := mem_files_ofDirectory h member
      rw [same]
      exact holdsFile_of_mem_walk walked

end Listing

/-! ## Survey -/

namespace Survey

variable {s : Survey} {t : FileTree}

/-- A file that is there is read or skipped if its size can be held against the limit. -/
theorem fails_readFile {file : ListedFile} (there : t.holdsFile file.place = true) :
    Fails (readFile t s file).value ↔ ¬ s.settings.maxFileSize.IsNumber := by
  obtain ⟨bytes, content⟩ := Option.isSome_iff_exists.1 there
  rw [← Settings.fails_exceedsLimit bytes.length]
  unfold readFile
  rw [content]
  dsimp only
  cases s.settings.exceedsLimit bytes.length with
  | error fault => simp
  | ok large => cases large <;> simp

theorem settings_readFile {file : ListedFile} {after : Survey} (h : (readFile t s file).value = .ok after) :
    after.settings = s.settings := by
  unfold readFile at h
  split at h
  · cases h
    rfl
  · split at h <;> cases h <;> rfl

/-- Reading files fails at the first one that is there, if sizes cannot be held against the limit. -/
theorem fault_readFiles_iff (files : List ListedFile) (there : ∀ file ∈ files, t.holdsFile file.place = true) :
    (∃ fault, (readFiles t s files).value.2 = some fault) ↔ files ≠ [] ∧ ¬ s.settings.maxFileSize.IsNumber := by
  induction files generalizing s with
  | nil => simp [readFiles]
  | cons file rest ih =>
    have first := fails_readFile (s := s) (there file List.mem_cons_self)
    have others : ∀ other ∈ rest, t.holdsFile other.place = true :=
      fun other member => there other (List.mem_cons_of_mem file member)
    rw [readFiles, Traced.value_bind]
    cases read : (readFile t s file).value with
    | error fault =>
      rw [read] at first
      exact iff_of_true ⟨fault, rfl⟩ ⟨List.cons_ne_nil _ _, first.1 trivial⟩
    | ok after =>
      rw [read, iff_false_left (not_fails_ok after), not_not] at first
      simp only [ih others, settings_readFile read, first, not_true_eq_false, and_false]

/-- **What stops a survey**: names to pass over that are none, once a name is looked at, and a size limit that is none,
once a file is listed. -/
theorem fault_run_iff : (∃ fault, (s.run t t).value.2 = some fault) ↔
    Fails (Listing.ofTarget s.settings t s.target) ∨
      (∃ listing, Listing.ofTarget s.settings t s.target = .ok listing ∧ listing.files ≠ []) ∧
        ¬ s.settings.maxFileSize.IsNumber := by
  unfold run
  cases listed : Listing.ofTarget s.settings t s.target with
  | error fault => simp
  | ok listing =>
    simp only [not_fails_ok, false_or, Except.ok.injEq, exists_eq_left']
    exact fault_readFiles_iff listing.files fun file member => Listing.holdsFile_of_mem listed member

end Survey

end EndpointSurvey
