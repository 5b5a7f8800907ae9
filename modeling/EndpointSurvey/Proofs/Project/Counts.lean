/-
What the counts of a survey count. A run adds one to them for each file that it considers: for the target itself, or for
each file met below it outside the directories to pass over. Nothing takes them back to zero before the next run, though
the reports start again, so after several runs the counts are those of all the runs together.

Main statements: `ofTarget_considered` (a listing leaves out no file), `run_total` (a run counts each file once) and
`counts_add_up` (the counts after any number of runs, and when they are those of the last run alone).
-/
import EndpointSurvey.Proofs.Project.Faults
import EndpointSurvey.Proofs.Project.GivenCache
import EndpointSurvey.Report.Summary

namespace EndpointSurvey

/-- all the files that are counted -/
def FileCounts.total (c : FileCounts) : Nat := c.analyzed + c.skipped + c.errored

/-! ## Files considered -/

namespace Listing

/-- none of the directories that lead to a file is passed over -/
def met (s : Settings) (names : List Text) : Bool := names.dropLast.all fun name => decide (s.ignores name = .ok false)

/-- how many files a target stands for: itself, or the files met below it -/
def considered (s : Settings) (t : FileTree) (target : Text) : Nat :=
  match t.locate (tidyPath target) with
  | .error _ => 0
  | .ok place => if t.holdsFile place then 1 else ((t.walk place).filter (met s)).length

variable {s : Settings} {t : FileTree} {target : Text} {place : Place} {listing : Listing} {names : List Text}

theorem ignoresAny_eq_ok {hit : Bool} (h : ignoresAny s names = .ok hit) :
    (names.all fun name => decide (s.ignores name = .ok false)) = !hit := by
  induction names with
  | nil =>
    cases h
    rfl
  | cons name rest ih =>
    rw [ignoresAny, List.anyM_cons] at h
    obtain ⟨passed, decided, h⟩ := bind_eq_ok_iff.1 h
    cases passed with
    | true =>
      cases h
      simp [decided]
    | false => simpa [decided] using ih h

/-- A file is hidden exactly if it is not met. -/
theorem standing_eq_hidden_iff {standing : Standing} (h : Listing.standing s names = .ok standing) :
    standing = .hidden ↔ met s names = false := by
  obtain ⟨passed, decided, h⟩ := bind_eq_ok_iff.1 h
  rw [met, ignoresAny_eq_ok decided, Bool.not_eq_false']
  cases passed with
  | true =>
    cases h
    simp
  | false =>
    have shown : standing ≠ .hidden := by
      rintro rfl
      simp only [Bool.false_eq_true, if_false] at h
      split at h
      · cases h
      · obtain ⟨named, -, h⟩ := bind_eq_ok_iff.1 h
        cases named <;> cases h
    simp [shown]

/-- Files that are met are either listed or passed over. -/
theorem standings_length {files : List (List Text)} {found : List (List Text × Standing)}
    (h : (files.mapM fun names => do pure (names, ← standing s names)) = .ok found) :
    (found.filter (·.2 == .listed)).length + (found.filter (·.2 == .passedOver)).length =
      (files.filter (met s)).length := by
  induction files generalizing found with
  | nil =>
    cases h
    rfl
  | cons names rest ih =>
    rw [List.mapM_cons] at h
    obtain ⟨first, decided, h⟩ := bind_eq_ok_iff.1 h
    obtain ⟨others, walked, same⟩ := bind_eq_ok_iff.1 h
    obtain ⟨standing, stands, named⟩ := bind_eq_ok_iff.1 decided
    obtain rfl := Except.ok.inj same
    obtain rfl := Except.ok.inj named
    have counted := ih walked
    have hidden := standing_eq_hidden_iff stands
    cases standing with
    | hidden => simpa [hidden.1 rfl] using counted
    | passedOver =>
      have there : met s names = true := by simpa using hidden
      simp [there, ← counted, Nat.add_assoc]
    | listed =>
      have there : met s names = true := by simpa using hidden
      simp [there, ← counted, Nat.add_right_comm]

/-- A listing leaves out no file that is met: it lists it or counts it as passed over. -/
theorem ofTarget_considered (h : ofTarget s t target = .ok listing) :
    listing.files.length + listing.passedOver = considered s t target := by
  unfold ofTarget at h
  unfold considered
  cases located : t.locate (tidyPath target) with
  | error fault =>
    rw [located] at h
    cases h
    rfl
  | ok place =>
    rw [located] at h
    dsimp only at h ⊢
    split at h
    · next there =>
      cases h
      rw [if_pos there]
      rfl
    · next above =>
      rw [if_neg above]
      obtain ⟨-, -, h⟩ := bind_eq_ok_iff.1 h
      obtain ⟨found, walked, h⟩ := bind_eq_ok_iff.1 h
      cases h
      simpa using standings_length walked

end Listing

namespace Survey

open Listing (considered)

variable {s after : Survey} {now : FileTree}

/-! ## One run -/

/-- A file that is read adds one to the counts, whatever comes of it. -/
theorem readFile_total {file : ListedFile} (h : (readFile now s file).value = .ok after) :
    after.counts.total = s.counts.total + 1 ∧ after.settings = s.settings ∧ after.target = s.target := by
  unfold readFile at h
  unfold FileCounts.total
  split at h
  · cases h
    exact ⟨by simp only [withErrored]; omega, rfl, rfl⟩
  · split at h
    · cases h
    · cases h
      exact ⟨by simp only [withSkipped]; omega, rfl, rfl⟩
    · cases h
      exact ⟨by simp only [withReport]; omega, rfl, rfl⟩

theorem readFiles_total (files : List ListedFile) (returned : (readFiles now s files).value.2 = none) :
    (readFiles now s files).value.1.counts.total = s.counts.total + files.length ∧
      (readFiles now s files).value.1.settings = s.settings ∧ (readFiles now s files).value.1.target = s.target := by
  induction files generalizing s with
  | nil => exact ⟨rfl, rfl, rfl⟩
  | cons file rest ih =>
    rw [readFiles, Traced.value_bind] at returned ⊢
    cases read : (readFile now s file).value with
    | error fault =>
      rw [read] at returned
      cases returned
    | ok after =>
      rw [read] at returned
      obtain ⟨one, settings, target⟩ := readFile_total read
      obtain ⟨others, settings', target'⟩ := ih returned
      refine ⟨?_, settings'.trans settings, target'.trans target⟩
      rw [List.length_cons, others, one]
      omega

/-- A run that comes to its end counts each file that it considers once more. -/
theorem run_total {listed : FileTree} (returned : (run listed now s).value.2 = none) :
    (run listed now s).value.1.counts.total = s.counts.total + considered s.settings listed s.target ∧
      (run listed now s).value.1.settings = s.settings ∧ (run listed now s).value.1.target = s.target := by
  unfold run at returned ⊢
  cases found : Listing.ofTarget s.settings listed s.target with
  | error fault =>
    rw [found] at returned
    cases returned
  | ok listing =>
    rw [found] at returned
    obtain ⟨all, settings, target⟩ := readFiles_total listing.files returned
    refine ⟨?_, settings, target⟩
    rw [all, ← Listing.ofTarget_considered found]
    simp only [FileCounts.total, withSkipped]
    omega

/-! ## Several runs -/

/-- a call of a survey: the tree in which it lists files and the one in which it reads them -/
abbrev Call := FileTree × FileTree

/-- what each of several calls comes to; a call starts from what the one before it has left -/
def runs (s : Survey) : List Call → List (Survey × Option SettingFault)
  | [] => []
  | (listed, now) :: rest =>
    let done := (run listed now s).value
    done :: runs done.1 rest

/-- the survey as several calls leave it -/
def afterRuns (s : Survey) (calls : List Call) : Survey :=
  calls.foldl (fun s (listed, now) => (run listed now s).value.1) s

theorem runs_append (s : Survey) (earlier : List Call) (listed now : FileTree) :
    runs s (earlier ++ [(listed, now)]) = runs s earlier ++ [(run listed now (afterRuns s earlier)).value] := by
  induction earlier generalizing s with
  | nil => rfl
  | cons call rest ih => exact congrArg ((run call.1 call.2 s).value :: ·) (ih _)

theorem afterRuns_append (s : Survey) (earlier : List Call) (listed now : FileTree) :
    afterRuns s (earlier ++ [(listed, now)]) = (run listed now (afterRuns s earlier)).value.1 :=
  List.foldl_append

/-- Calls analyse as many files as they report, all together. -/
theorem analyzed_afterRuns (s : Survey) (calls : List Call) :
    (afterRuns s calls).counts.analyzed = s.counts.analyzed + sum ((runs s calls).map (·.1.reports.length)) := by
  induction calls generalizing s with
  | nil => rfl
  | cons call rest ih =>
    calc (afterRuns s (call :: rest)).counts.analyzed
        = (run call.1 call.2 s).value.1.counts.analyzed +
            sum ((runs (run call.1 call.2 s).value.1 rest).map (·.1.reports.length)) := ih _
      _ = _ := by
        rw [run_reports_length]
        simp only [runs, List.map_cons, sum, List.foldr_cons]
        omega

/-- Calls that come to their end count each file once for each call that considers it. -/
theorem total_afterRuns {s : Survey} {calls : List Call} (returned : ∀ done ∈ runs s calls, done.2 = none) :
    (afterRuns s calls).counts.total =
        s.counts.total + sum (calls.map fun call => considered s.settings call.1 s.target) ∧
      (afterRuns s calls).settings = s.settings ∧ (afterRuns s calls).target = s.target := by
  induction calls generalizing s with
  | nil => exact ⟨rfl, rfl, rfl⟩
  | cons call rest ih =>
    obtain ⟨first, others⟩ := List.forall_mem_cons.1 returned
    obtain ⟨one, settings, target⟩ := run_total first
    obtain ⟨all, settings', target'⟩ := ih others
    refine ⟨?_, settings'.trans settings, target'.trans target⟩
    calc (afterRuns s (call :: rest)).counts.total
        = (run call.1 call.2 s).value.1.counts.total + sum (rest.map fun other =>
            considered (run call.1 call.2 s).value.1.settings other.1 (run call.1 call.2 s).value.1.target) := all
      _ = _ := by
        rw [one, settings, target]
        simp only [List.map_cons, sum, List.foldr_cons]
        omega

theorem sum_eq_zero_iff {counts : List Nat} : sum counts = 0 ↔ ∀ count ∈ counts, count = 0 := by
  induction counts with
  | nil => simp [sum]
  | cons count rest ih =>
    rw [List.forall_mem_cons, ← ih]
    exact Nat.add_eq_zero_iff

/-- A survey starts as one before its first run, whatever cache it is given. -/
theorem start?_eq_ok {settings : Settings} {target : Text} {given : Option (DocumentCache Document)} {first : Survey}
    (h : start? settings target given = .ok first) : ∃ cache, first = unrun settings target cache := by
  have fresh : start? settings target none = .ok first → ∃ cache, first = unrun settings target cache :=
    fun h => (start?_none h).imp fun _ both => both.2
  cases given with
  | none => exact fresh h
  | some cache =>
    rw [start?_some] at h
    split at h
    · exact fresh h
    · exact ⟨cache, (Except.ok.inj h).symm⟩

/-- **The counts of a survey add up over its calls**: after any number of calls that come to their end, the files
analysed are those reported by all the calls, and the files counted are those considered by all the calls. They are the
last call's own exactly if no call before it considered a file, as when there was none. -/
theorem counts_add_up {settings : Settings} {target : Text} {given : Option (DocumentCache Document)} {first : Survey}
    (started : start? settings target given = .ok first) (earlier : List Call) (listed now : FileTree)
    (returned : ∀ done ∈ runs first (earlier ++ [(listed, now)]), done.2 = none) :
    let after := afterRuns first (earlier ++ [(listed, now)])
    let counts := after.summary.counts
    counts.analyzed = sum ((runs first earlier).map (·.1.reports.length)) + after.reports.length ∧
      counts.total =
        sum (earlier.map fun call => considered settings call.1 target) + considered settings listed target ∧
      (counts.analyzed = after.reports.length ∧ counts.total = considered settings listed target ↔
        ∀ call ∈ earlier, considered settings call.1 target = 0) := by
  obtain ⟨rfl, rfl, nothing⟩ : first.settings = settings ∧ first.target = target ∧ first.counts = ⟨0, 0, 0⟩ := by
    obtain ⟨cache, rfl⟩ := start?_eq_ok started
    exact ⟨rfl, rfl, rfl⟩
  intro after counts
  rw [runs_append] at returned
  obtain ⟨before_returned, last_returned⟩ := List.forall_mem_append.1 returned
  obtain ⟨before_total, settings_kept, target_kept⟩ := total_afterRuns before_returned
  have before_analyzed := analyzed_afterRuns first earlier
  obtain ⟨last_total, -, -⟩ := run_total (last_returned _ (List.mem_singleton_self _))
  rw [nothing] at before_total before_analyzed
  simp only [FileCounts.total, Nat.add_zero, Nat.zero_add] at before_total before_analyzed
  have after_eq : after = (run listed now (afterRuns first earlier)).value.1 := afterRuns_append ..
  have analyzed : counts.analyzed =
      sum ((runs first earlier).map (·.1.reports.length)) + after.reports.length := by
    rw [← before_analyzed, after_eq, ← run_reports_length, ← after_eq]
    rfl
  have total : counts.total = sum (earlier.map fun call => considered first.settings call.1 first.target) +
      considered first.settings listed first.target := by
    rw [← before_total, ← settings_kept, ← target_kept]
    exact (congrArg (·.counts.total) after_eq).trans last_total
  refine ⟨analyzed, total, ?_⟩
  have none_before : (∀ call ∈ earlier, considered first.settings call.1 first.target = 0) ↔
      sum (earlier.map fun call => considered first.settings call.1 first.target) = 0 := by
    rw [sum_eq_zero_iff, List.forall_mem_map]
  rw [none_before, analyzed, total, ← before_analyzed]
  -- no file has been analysed before if none has been counted
  omega

theorem counts_add_up_oneFile :
    ∃ first, start? Settings.initial.completed ['.'] (some otherFile) = .ok first ∧
      (∀ done ∈ runs first ([(oneFile, oneFile)] ++ [(oneFile, oneFile)]), done.2 = none) ∧
      let after := afterRuns first ([(oneFile, oneFile)] ++ [(oneFile, oneFile)])
      after.reports.length = 1 ∧ considered Settings.initial.completed oneFile ['.'] = 1 ∧
        after.summary.counts.analyzed = 2 ∧ after.summary.counts.total = 2 := by
  have started : start? Settings.initial.completed ['.'] (some otherFile) =
      .ok (unrun Settings.initial.completed ['.'] otherFile) := start?_some ..
  have returned : ∀ done ∈ runs (unrun Settings.initial.completed ['.'] otherFile)
      ([(oneFile, oneFile)] ++ [(oneFile, oneFile)]), done.2 = none := by decide +kernel
  have first_reports : (runs (unrun Settings.initial.completed ['.'] otherFile) [(oneFile, oneFile)]).map
      (·.1.reports.length) = [1] := by decide +kernel
  have last_reports : (afterRuns (unrun Settings.initial.completed ['.'] otherFile)
      ([(oneFile, oneFile)] ++ [(oneFile, oneFile)])).reports.length = 1 := by decide +kernel
  have once : considered Settings.initial.completed oneFile ['.'] = 1 := by decide +kernel
  obtain ⟨analyzed, total, -⟩ := counts_add_up started [(oneFile, oneFile)] oneFile oneFile returned
  rw [first_reports, last_reports] at analyzed
  rw [List.map_cons, List.map_nil, once] at total
  exact ⟨_, started, returned, last_reports, once, analyzed, total⟩

end Survey

end EndpointSurvey
