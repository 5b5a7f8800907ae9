/-
Where path texts lead, and the files that a target stands for. A path with a null character is none, and it is the only
one that is not; a place that has been written is still open for writing. Where no name holds a slash, a path is the path
of one place.

Main statements: `failsAs_locate`, `failsAs_read` and `failsAs_write` (a path is found to be none exactly if it has a
null character), `append_again` (what could be added to can be added to again), `Listing.mem_files` (a listed file is the
target itself or lies below it) and `Listing.place_of_path` (listed files with one path are at one place).
-/
import EndpointSurvey.Project.FileTree
import EndpointSurvey.Project.Listing
import EndpointSurvey.Proofs.Failing
import EndpointSurvey.Proofs.Text.Spacing

namespace EndpointSurvey.FileTree

variable {t : FileTree} {place : Place} {bytes : List UInt8} {path : Text}

/-! ## Paths that are none -/

theorem follow_ne_nullCharacter (names : List Text) (place : Place) :
    ¬ FailsAs (· = .nullCharacter) (t.follow path place names) := by
  induction names generalizing place with
  | nil =>
    rw [follow]
    split <;> simp
  | cons name rest ih =>
    rw [follow]
    split
    · split <;> simp
    · split
      · exact ih place
      · split <;> exact ih _

theorem failsAs_locate : FailsAs (· = .nullCharacter) (t.locate path) ↔ '\x00' ∈ path := by
  unfold locate
  split
  · next found => simpa using found
  · next none =>
    have absent : '\x00' ∉ path := by simpa using none
    rw [iff_false_right absent]
    split
    · simp
    · exact follow_ne_nullCharacter _ _

theorem failsAs_read : FailsAs (· = .nullCharacter) (t.read path) ↔ '\x00' ∈ path := by
  unfold read
  rw [failsAs_bind, failsAs_locate, or_iff_left]
  rintro ⟨place, -, failing⟩
  split at failing <;> simp at failing

theorem eq_nullCharacter_iff {fault : FileFault} (h : t.read path = .error fault) :
    fault = .nullCharacter ↔ '\x00' ∈ path := by
  rw [← failsAs_read (t := t), h]
  rfl

theorem not_mem_of_read (h : t.read path = .ok bytes) : '\x00' ∉ path := by
  rw [← failsAs_read (t := t), h]
  exact failsAs_ok bytes

theorem failsAs_locateNew : FailsAs (· = .nullCharacter) (t.locateNew path) ↔ '\x00' ∈ path := by
  unfold locateNew
  simp only [failsAs_unless, failsAs_bind, follow_ne_nullCharacter, reduceCtorEq, failsAs_pure, and_false, or_false,
    exists_false, and_true, List.elem_iff]

theorem failsAs_write : FailsAs (· = .nullCharacter) (t.write path bytes) ↔ '\x00' ∈ path := by
  unfold write
  rw [failsAs_bind, failsAs_locateNew]
  simp

/-! ## Writing -/

/-- A file that is written makes the directories above it, and no other. -/
theorem holdsDirectory_insert (other : Place) :
    (t.insert place bytes).holdsDirectory other = (t.holdsDirectory other || below other place) := by
  have kept : (t.files.filter (·.1 != place)).any (fun file => below other file.1) = true ∨ below other place = true ↔
      t.files.any (fun file => below other file.1) = true ∨ below other place = true := by
    simp only [List.any_eq_true, List.mem_filter, bne_iff_ne]
    constructor
    · rintro (⟨file, ⟨there, -⟩, within⟩ | within)
      · exact .inl ⟨file, there, within⟩
      · exact .inr within
    · rintro (⟨file, there, within⟩ | within)
      · by_cases same : file.1 = place
        · exact .inr (same ▸ within)
        · exact .inl ⟨file, ⟨there, same⟩, within⟩
      · exact .inr within
  rw [Bool.eq_iff_iff]
  simp only [holdsDirectory, insert, List.any_append, List.any_cons, List.any_nil, Bool.or_false, Bool.or_eq_true,
    or_assoc]
  rw [kept]

theorem holdsFile_insert {other : Place} (h : t.holdsFile other = true) :
    (t.insert place bytes).holdsFile other = true := by
  unfold holdsFile at h ⊢
  rw [content?_insert]
  split
  · rfl
  · exact h

/-- Names lead where they led before. -/
theorem follow_insert {names : List Text} {start found : Place} (h : t.follow path start names = .ok found) :
    (t.insert place bytes).follow path start names = .ok found := by
  induction names generalizing start with
  | nil =>
    rw [follow] at h ⊢
    split at h
    · next there =>
      rw [if_pos, h]
      rw [Bool.or_eq_true] at there ⊢
      rw [holdsDirectory_insert]
      exact there.imp holdsFile_insert fun directory => by rw [directory, Bool.true_or]
    · cases h
  | cons name rest ih =>
    rw [follow] at h ⊢
    cases directory : t.holdsDirectory start with
    | false =>
      rw [directory] at h
      cases h
    | true =>
      rw [directory] at h
      rw [holdsDirectory_insert, directory, Bool.true_or]
      simp only [Bool.not_true, Bool.false_eq_true, if_false] at h ⊢
      split at h
      · next stays => rw [if_pos stays, ih h]
      · next leaves =>
        rw [if_neg leaves]
        split at h
        · next up => rw [if_pos up, ih h]
        · next down => rw [if_neg down, ih h]

theorem locate_insert {found : Place} (h : t.locate path = .ok found) :
    (t.insert place bytes).locate path = .ok found := by
  unfold locate at h ⊢
  split at h
  · cases h
  · next plain =>
    rw [if_neg plain]
    split at h
    · cases h
    · next filled =>
      rw [if_neg filled]
      exact follow_insert h

/-- What is there is still there after a file has been written. -/
theorem fileExists_insert (h : t.fileExists path = true) : (t.insert place bytes).fileExists path = true := by
  unfold fileExists at h ⊢
  cases located : t.locate path with
  | error fault =>
    rw [located] at h
    cases h
  | ok found => rw [locate_insert located]

/-- A place that can be written can be written again. -/
theorem locateNew_insert (h : t.locateNew path = .ok place) :
    (t.insert place bytes).locateNew path = .ok place := by
  unfold locateNew at h ⊢
  simp only [unless_eq_ok_iff, bind_eq_ok_iff] at h ⊢
  obtain ⟨plain, filled, directory, followed, there, name_fits, short, same⟩ := h
  have open_place : (t.insert place bytes).holdsDirectory place = t.holdsDirectory place := by
    rw [holdsDirectory_insert, below]
    simp
  have rest := Except.ok.inj same
  refine ⟨plain, filled, directory, follow_insert followed, ?_, ?_, short, same⟩
  · rw [holdsDirectory_insert]
    simp only [Bool.not_eq_true', Bool.not_eq_false] at there
    simp [there]
  · rw [rest, open_place, ← rest]
    exact name_fits

theorem fails_append : Fails (t.append path bytes) ↔ Fails (t.locateNew path) := by
  unfold append
  rw [fails_bind]
  simp

/-- What could be added to can be added to again, in the same directory. -/
theorem append_again {after : FileTree} (h : t.append path bytes = .ok after) :
    after.workingDirectory = t.workingDirectory ∧ ∀ more, ¬ Fails (after.append path more) := by
  obtain ⟨place, located, same⟩ := bind_eq_ok_iff.1 h
  obtain rfl := Except.ok.inj same
  refine ⟨rfl, fun more => ?_⟩
  rw [fails_append, locateNew_insert located]
  exact not_fails_ok _

end EndpointSurvey.FileTree

namespace EndpointSurvey

/-! ## Paths -/

theorem slash_not_mem_pathNames {path name : Text} (h : name ∈ pathNames path) : '/' ∉ name :=
  Text.not_mem_of_mem_splitOn (List.mem_filter.1 h).1

/-- Names without slashes come back from their path. -/
theorem pathText_injective {rooted : Bool} {a b : List Text} (a_free : ∀ name ∈ a, '/' ∉ name)
    (b_free : ∀ name ∈ b, '/' ∉ name) (a_inhabited : a ≠ []) (b_inhabited : b ≠ [])
    (same : pathText rooted a = pathText rooted b) : a = b := by
  have joined : Text.join ['/'] a = Text.join ['/'] b := by
    cases rooted with
    | true => exact (List.cons.inj same).2
    | false => simpa [pathText, a_inhabited, b_inhabited] using same
  rw [← Text.splitOn_join a_free a_inhabited, joined, Text.splitOn_join b_free b_inhabited]

/-! ## Listed files -/

/-- no name in the tree holds a slash -/
def FileTree.Named (t : FileTree) : Prop := ∀ file ∈ t.files, ∀ name ∈ file.1, '/' ∉ name

instance (t : FileTree) : Decidable t.Named :=
  inferInstanceAs (Decidable (∀ file ∈ t.files, ∀ name ∈ file.1, '/' ∉ name))

/-- What lies below a place is led to by one name at least, all of them names of the tree. -/
theorem FileTree.names_of_mem_walk {t : FileTree} (named : t.Named) {place : Place} {names : List Text}
    (h : names ∈ t.walk place) : names ≠ [] ∧ ∀ name ∈ names, '/' ∉ name := by
  obtain ⟨file, found, rfl⟩ := List.mem_map.1 (List.mem_mergeSort.1 h)
  obtain ⟨there, within⟩ := List.mem_filter.1 found
  obtain ⟨entry, listed, rfl⟩ := List.mem_map.1 there
  simp only [below, Bool.and_eq_true, decide_eq_true_eq] at within
  constructor
  · intro none_left
    have := List.drop_eq_nil_iff.1 none_left
    omega
  · exact fun name member => named entry listed name (List.mem_of_mem_drop member)

namespace Listing

variable {s : Settings} {t : FileTree} {target : Text} {listing : Listing}

theorem mem_files_ofDirectory {place : Place} (h : ofDirectory s t target place = .ok listing) {file : ListedFile}
    (member : file ∈ listing.files) :
    ∃ names ∈ t.walk place, file.place = place ++ names ∧
      file.path = pathText (target.head? = some '/') (pathNames target ++ names) := by
  unfold ofDirectory at h
  cases looked : (t.directoriesBelow place).mapM (ignoresAny s) with
  | error e =>
    rw [looked] at h
    cases h
  | ok _ =>
    cases found : (t.walk place).mapM fun names => do pure (names, ← standing s names) with
    | error e =>
      rw [looked, found] at h
      cases h
    | ok standings =>
      rw [looked, found] at h
      cases h
      obtain ⟨names, listed, rfl⟩ := List.mem_map.1 member
      obtain ⟨entry, there, rfl⟩ := List.mem_map.1 listed
      obtain ⟨names, walked, same⟩ := mem_of_mapM found (List.mem_filter.1 there).1
      cases decided : standing s names with
      | error e =>
        rw [decided] at same
        cases same
      | ok _ =>
        rw [decided] at same
        cases same
        exact ⟨names, walked, rfl, rfl⟩

/-- A listed file is the target itself, or lies below it. -/
theorem mem_files (h : ofTarget s t target = .ok listing) {file : ListedFile} (member : file ∈ listing.files) :
    listing.files = [file] ∨
      ∃ place, t.locate (tidyPath target) = .ok place ∧ ∃ names ∈ t.walk place, file.place = place ++ names ∧
        file.path = pathText (target.head? = some '/') (pathNames target ++ names) := by
  unfold ofTarget at h
  split at h
  · cases h
    cases member
  · next place located =>
    split at h
    · cases h
      rw [List.mem_singleton.1 member]
      exact .inl rfl
    · exact .inr ⟨place, located, mem_files_ofDirectory h member⟩

/-- Listed files with one path are at one place. -/
theorem place_of_path (named : t.Named) (h : ofTarget s t target = .ok listing) {a b : ListedFile}
    (a_listed : a ∈ listing.files) (b_listed : b ∈ listing.files) (same : a.path = b.path) : a.place = b.place := by
  rcases mem_files h a_listed with alone | ⟨place, located, names, walked, a_place, a_path⟩
  · rw [alone, List.mem_singleton] at b_listed
    rw [b_listed]
  rcases mem_files h b_listed with alone | ⟨_, located', names', walked', b_place, b_path⟩
  · rw [alone, List.mem_singleton] at a_listed
    rw [a_listed]
  obtain rfl := Except.ok.inj (located.symm.trans located')
  obtain ⟨inhabited, free⟩ := FileTree.names_of_mem_walk named walked
  obtain ⟨inhabited', free'⟩ := FileTree.names_of_mem_walk named walked'
  have above_free : ∀ {below : List Text}, (∀ name ∈ below, '/' ∉ name) →
      ∀ name ∈ pathNames target ++ below, '/' ∉ name := by
    intro below free name member
    rcases List.mem_append.1 member with above | below
    · exact slash_not_mem_pathNames above
    · exact free name below
  have names_eq := pathText_injective (above_free free) (above_free free') (by simp [inhabited]) (by simp [inhabited'])
    (a_path.symm.trans (same.trans b_path))
  rw [a_place, b_place, List.append_cancel_left names_eq]

end Listing

end EndpointSurvey
