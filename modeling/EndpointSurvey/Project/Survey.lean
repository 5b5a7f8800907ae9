/-
The survey of a project: the files of its target are read one after another, with results taken from a cache where a
file is unchanged. A survey can be run again; its cache and its counts go on.

Main statement: `run_reports_length` (a run reports exactly the files that it counts as analysed).
-/
import EndpointSurvey.Document.Reading
import EndpointSurvey.Project.Listing
import EndpointSurvey.Text.Utf8

namespace EndpointSurvey

structure FileReport where
  path : Text
  document : Document
  deriving DecidableEq, Repr

structure FileCounts where
  analyzed : Nat
  skipped : Nat
  errored : Nat
  deriving DecidableEq, Repr

structure Survey where
  settings : Settings
  target : Text
  cache : DocumentCache Document
  counts : FileCounts
  /-- what the last run found, one report per analysed file -/
  reports : List FileReport

namespace Survey

/-- the survey of a target; a given cache that holds nothing is replaced by a new one -/
def start? (settings : Settings) (target : Text) (given : Option (DocumentCache Document)) :
    Except SettingFault Survey := do
  let cache ← match given with
    | some c => if c.size = 0 then settings.newCache Document else pure c
    | none => settings.newCache Document
  pure ⟨settings, target, cache, ⟨0, 0, 0⟩, []⟩

/-- one more file that cannot be read -/
def withErrored (s : Survey) : Survey := { s with counts := { s.counts with errored := s.counts.errored + 1 } }

def withSkipped (s : Survey) (files : Nat) : Survey :=
  { s with counts := { s.counts with skipped := s.counts.skipped + files } }

/-- one more file with its report -/
def withReport (s : Survey) (report : FileReport) : Survey :=
  { s with
    counts := { s.counts with analyzed := s.counts.analyzed + 1 }
    reports := s.reports ++ [report] }

/-- surveys one file as it is now -/
def readFile (now : FileTree) (s : Survey) (file : ListedFile) : Traced (Except SettingFault Survey) :=
  match now.content? file.place with
  | none => do
    Traced.emit (.fileUnreadable file.path (FileFault.missing file.path).message)
    pure (.ok s.withErrored)
  | some bytes =>
    match s.settings.exceedsLimit bytes.length with
    | .error fault => pure (.error fault)
    | .ok true => do
      Traced.emit (.fileTooLarge file.path (Settings.sizeText bytes.length) s.settings.maxFileSize.plain)
      pure (.ok (s.withSkipped 1))
    | .ok false => do
      let text := Utf8.readFile bytes
      let (cache, document) ← s.cache.getOrMake readDocument file.path (Digest.fingerprint text) text
      pure (.ok ({ s with cache := cache }.withReport ⟨file.shown, document⟩))

/-- surveys files one after another, up to the first fault -/
def readFiles (now : FileTree) (s : Survey) : List ListedFile → Traced (Survey × Option SettingFault)
  | [] => pure (s, none)
  | file :: rest => do
    match ← readFile now s file with
    | .error fault => pure (s, some fault)
    | .ok s => readFiles now s rest

/-- Runs the survey: lists the files of its target in one tree and reads them in another, which may be the same. -/
def run (listed now : FileTree) (s : Survey) : Traced (Survey × Option SettingFault) :=
  match Listing.ofTarget s.settings listed s.target with
  | .error fault => pure ({ s with reports := [] }, some fault)
  | .ok listing => readFiles now ({ s with reports := [] }.withSkipped listing.passedOver) listing.files

/-- how many files were analysed before the reports at hand -/
def before (s : Survey) : Int := (s.counts.analyzed : Int) - s.reports.length

theorem readFile_before {now : FileTree} {s after : Survey} {file : ListedFile}
    (h : (readFile now s file).value = .ok after) : after.before = s.before := by
  unfold readFile at h
  split at h
  · cases h; rfl
  · split at h
    · cases h
    · cases h; rfl
    · cases h
      simp only [before, withReport, List.length_append, List.length_cons, List.length_nil]
      omega

theorem readFiles_before (now : FileTree) (files : List ListedFile) (s : Survey) :
    (readFiles now s files).value.1.before = s.before := by
  induction files generalizing s with
  | nil => rfl
  | cons file rest ih =>
    unfold readFiles
    show (match (readFile now s file).value with
      | .error fault => (pure (s, some fault) : Traced _)
      | .ok s => readFiles now s rest).value.1.before = _
    split
    · rfl
    · next after h => rw [ih after, readFile_before h]

/-- A run reports as many files as it adds to the analysed ones. -/
theorem run_reports_length (listed now : FileTree) (s : Survey) :
    (run listed now s).value.1.counts.analyzed = s.counts.analyzed + (run listed now s).value.1.reports.length := by
  have key : (run listed now s).value.1.before = s.counts.analyzed := by
    unfold run
    split
    · simp [pure, before]
    · rw [readFiles_before]
      simp [before, withSkipped]
  unfold before at key
  omega

end Survey

end EndpointSurvey
