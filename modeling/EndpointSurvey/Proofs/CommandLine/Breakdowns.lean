/-
When a run of the command line breaks instead of ending with an exit code: at a setting whose value is of no use where
it is used, at a log's file that cannot be written, at a message that cannot be shown, and in the documents surveyed.

Main statements: `breaks_survey` (what breaks a run at its survey), `run_breaks_iff` (what breaks a run at any stage)
and `run_ends` (with usable settings, a quiet run that only surveys ends with an exit code).
-/
import EndpointSurvey.Proofs.CommandLine.Preparation
import EndpointSurvey.Proofs.Project.Faults
import EndpointSurvey.Proofs.Project.GivenCache

namespace EndpointSurvey

namespace CommandLine

variable {t : FileTree} {vars : Entries Text} {now : Instant} {a : Arguments} {s : Settings}

/-! ## Survey -/

/-- what a request that fails stops -/
def requestStop : RequestError → Stop
  | .template e => .broken (.template e)
  | .environment e => environmentStop e

/-- a survey that a run has made of its target, to the end -/
structure Surveyed (t : FileTree) (s : Settings) (a : Arguments) (done : Survey) : Prop where
  there : checkTarget t a.target = .ok ()
  ran : ∃ fresh, Survey.start? s a.target none = .ok fresh ∧ (fresh.run t t).value = (done, none)

/-- what breaks a run at its survey: a target that cannot be spoken of, a cache without room, names to pass over that
are none where a name is looked at, a size limit that is none where a file is listed, a method that is none where there
are findings, or a request -/
inductive SurveyBreaks (t : FileTree) (now : Instant) (s : Settings) (a : Arguments)
    (environment : Option Environment) : Prop
  | target (stopped : FailsAs Stop.Breaks (checkTarget t a.target))
  | cache (there : checkTarget t a.target = .ok ()) (value : ¬ s.cacheSize.HasRoom)
  | ignored {place : Place} (there : checkTarget t a.target = .ok ())
      (located : t.locate (tidyPath a.target) = .ok place) (directory : t.holdsFile place = false)
      (looked : Listing.Looks t place) (value : ¬ s.ignored.HoldsNames)
  | size {listing : Listing} (there : checkTarget t a.target = .ok ())
      (listed : Listing.ofTarget s t a.target = .ok listing) (inhabited : listing.files ≠ [])
      (value : ¬ s.maxFileSize.IsNumber)
  | method {done : Survey} (surveyed : Surveyed t s a done) (unusable : a.selection = .unusable)
      (inhabited : done.findingsOf none ≠ [])
  | request {done : Survey} {found : List Finding} {e : RequestError} (surveyed : Surveyed t s a done)
      (asked : a.generate = true) (chosen : selected done a.selection = .ok found)
      (failed : (done.requests now (environment.map (·.draft)) found).value = .error e)
      (stopped : (requestStop e).Breaks)

theorem fails_start? : Fails (Survey.start? s a.target none) ↔ ¬ s.cacheSize.HasRoom := by
  rw [← Settings.fails_newCache (α := Document)]
  unfold Survey.start?
  cases s.newCache Document <;> simp [bind, Except.bind, pure, Except.pure]

/-- the findings of a survey that is done, with requests where they are asked for -/
def findingsOf (now : Instant) (a : Arguments) (environment : Option Environment) (done : Survey) :
    Except Stop Findings := do
  let found ← (selected done a.selection).mapError faultStop
  if !a.generate then .ok ⟨done, found, none⟩
  else match (done.requests now (environment.map (·.draft)) found).value with
    | .ok requests => .ok ⟨done, found, some requests⟩
    | .error e => .error (requestStop e)

/-- the outcome of a survey that has started -/
def outcomeOf (now : Instant) (a : Arguments) (environment : Option Environment) :
    Survey × Option SettingFault → Except Stop Findings
  | (_, some fault) => .error (faultStop fault)
  | (done, none) => findingsOf now a environment done

theorem value_survey (environment : Option Environment) : (survey t now s a environment).run.value = (do
    checkTarget t a.target
    let fresh ← (Survey.start? s a.target none).mapError faultStop
    outcomeOf now a environment (fresh.run t t).value) := by
  unfold survey
  rw [value_run_bind]
  refine congrArg (checkTarget t a.target >>= ·) (funext fun _ => ?_)
  rw [value_run_bind]
  refine congrArg ((Survey.start? s a.target none).mapError faultStop >>= ·) (funext fun fresh => ?_)
  rw [value_run_bind, value_run_lift]
  rcases (fresh.run t t).value with ⟨done, _ | fault⟩
  · refine value_run_bind.trans ?_
    refine congrArg ((selected done a.selection).mapError faultStop >>= ·) (funext fun found => ?_)
    cases a.generate with
    | false => rfl
    | true =>
      refine value_run_bind.trans ?_
      rw [value_run_lift]
      cases (done.requests now (environment.map (·.draft)) found).value with
      | ok requests => rfl
      | error e => cases e <;> rfl
  · rfl

theorem fails_selected {done : Survey} {selection : Selection} :
    Fails (selected done selection) ↔ selection = .unusable ∧ done.findingsOf none ≠ [] := by
  unfold selected
  cases selection with
  | unusable => cases done.findingsOf none <;> simp
  | _ => simp

theorem breaks_findingsOf {environment : Option Environment} {done : Survey} :
    FailsAs Stop.Breaks (findingsOf now a environment done) ↔
      (a.selection = .unusable ∧ done.findingsOf none ≠ []) ∨ a.generate = true ∧ ∃ found e,
        selected done a.selection = .ok found ∧
          (done.requests now (environment.map (·.draft)) found).value = .error e ∧ (requestStop e).Breaks := by
  unfold findingsOf
  rw [failsAs_bind, breaks_faultStop, fails_selected]
  refine or_congr Iff.rfl ?_
  cases selected done a.selection with
  | error fault => simp [Except.mapError]
  | ok found =>
    simp only [Except.mapError, Except.ok.injEq, exists_eq_left']
    cases a.generate with
    | false => simp
    | true => cases made : (done.requests now (environment.map (·.draft)) found).value <;> simp [made]

/-- What breaks a survey that has started: its names to pass over, or its size limit. -/
theorem fault_run_start? {fresh : Survey} (started : Survey.start? s a.target none = .ok fresh) :
    (∃ fault, (fresh.run t t).value.2 = some fault) ↔
      (∃ place, t.locate (tidyPath a.target) = .ok place ∧ t.holdsFile place = false ∧ Listing.Looks t place) ∧
          ¬ s.ignored.HoldsNames ∨
        (∃ listing, Listing.ofTarget s t a.target = .ok listing ∧ listing.files ≠ []) ∧ ¬ s.maxFileSize.IsNumber := by
  obtain ⟨c, -, rfl⟩ := Survey.start?_none started
  rw [Survey.fault_run_iff, ← Listing.fails_ofTarget]
  rfl

theorem breaks_outcomeOf_of_fault {environment : Option Environment} {result : Survey × Option SettingFault}
    (h : ∃ fault, result.2 = some fault) : FailsAs Stop.Breaks (outcomeOf now a environment result) := by
  obtain ⟨done, _⟩ := result
  obtain ⟨fault, rfl⟩ := h
  exact .inl trivial

theorem breaks_survey {environment : Option Environment} :
    FailsAs Stop.Breaks (survey t now s a environment).run.value ↔ SurveyBreaks t now s a environment := by
  have stages : FailsAs Stop.Breaks (survey t now s a environment).run.value ↔
      FailsAs Stop.Breaks (checkTarget t a.target) ∨ checkTarget t a.target = .ok () ∧
        (¬ s.cacheSize.HasRoom ∨ ∃ fresh, Survey.start? s a.target none = .ok fresh ∧
          FailsAs Stop.Breaks (outcomeOf now a environment (fresh.run t t).value)) := by
    rw [value_survey]
    simp only [failsAs_bind, breaks_faultStop, fails_start?, mapError_eq_ok_iff]
    exact or_congr Iff.rfl ⟨fun ⟨_, failing⟩ => failing, fun failing => ⟨(), failing⟩⟩
  have on_the_way : (∀ fresh, Survey.start? s a.target none = .ok fresh →
        ∃ fault, (fresh.run t t).value.2 = some fault) →
      ¬ s.cacheSize.HasRoom ∨ ∃ fresh, Survey.start? s a.target none = .ok fresh ∧
        FailsAs Stop.Breaks (outcomeOf now a environment (fresh.run t t).value) := by
    intro faulty
    by_cases room : s.cacheSize.HasRoom
    · obtain ⟨fresh, started⟩ := not_fails_iff.1 fun full => fails_start?.1 full room
      exact .inr ⟨fresh, started, breaks_outcomeOf_of_fault (faulty fresh started)⟩
    · exact .inl room
  rw [stages]
  constructor
  · rintro (stopped | ⟨there, full | ⟨fresh, started, failing⟩⟩)
    · exact .target stopped
    · exact .cache there full
    rcases ran : (fresh.run t t).value with ⟨done, _ | fault⟩
    · rw [ran] at failing
      rcases breaks_findingsOf.1 failing with ⟨unusable, inhabited⟩ | ⟨asked, found, e, chosen, failed, stopped⟩
      · exact .method ⟨there, fresh, started, ran⟩ unusable inhabited
      · exact .request ⟨there, fresh, started, ran⟩ asked chosen failed stopped
    · rcases (fault_run_start? started).1 ⟨fault, by rw [ran]⟩ with
        ⟨⟨place, located, directory, looked⟩, value⟩ | ⟨⟨listing, listed, inhabited⟩, value⟩
      · exact .ignored there located directory looked value
      · exact .size there listed inhabited value
  · rintro (stopped | ⟨there, value⟩ | ⟨there, located, directory, looked, value⟩ | ⟨there, listed, inhabited, value⟩ |
      ⟨⟨there, fresh, started, ran⟩, unusable, inhabited⟩ |
      ⟨⟨there, fresh, started, ran⟩, asked, chosen, failed, stopped⟩)
    · exact .inl stopped
    · exact .inr ⟨there, .inl value⟩
    · exact .inr ⟨there, on_the_way fun _ started =>
        (fault_run_start? started).2 (.inl ⟨⟨_, located, directory, looked⟩, value⟩)⟩
    · exact .inr ⟨there, on_the_way fun _ started =>
        (fault_run_start? started).2 (.inr ⟨⟨_, listed, inhabited⟩, value⟩)⟩
    · refine .inr ⟨there, .inr ⟨fresh, started, ?_⟩⟩
      rw [ran]
      exact breaks_findingsOf.2 (.inl ⟨unusable, inhabited⟩)
    · refine .inr ⟨there, .inr ⟨fresh, started, ?_⟩⟩
      rw [ran]
      exact breaks_findingsOf.2 (.inr ⟨asked, _, _, chosen, failed, stopped⟩)

/-! ## Conclusion -/

/-- what breaks a run at its end: findings that cannot be shown, a path for the document that is none, a message about
the document, or its path once it is written -/
inductive ConclusionBreaks (t : FileTree) (now : Instant) (a : Arguments) (findings : Findings)
    (environment : Option Environment) : Prop
  | findings (stopped : FailsAs Stop.Breaks (sayFindings a findings environment))
  | nowhere {path : Text} (shown : sayFindings a findings environment = .ok ()) (asked : given a.output = some path)
      (null : '\x00' ∈ path)
  | message (shown : sayFindings a findings environment = .ok ())
      (unshown : FailsAs (fun fault => (fileStop fault).Unshown) (writeDocument t now a findings))
  | path {after : FileTree} (shown : sayFindings a findings environment = .ok ())
      (written : writeDocument t now a findings = .ok after) (stopped : FailsAs Stop.Breaks (sayWritten a))

theorem isBroken_writeDocument {findings : Findings} :
    FailsAs (fun fault => (fileStop fault).IsBroken) (writeDocument t now a findings) ↔
      ∃ path, given a.output = some path ∧ '\x00' ∈ path := by
  unfold writeDocument
  simp only [isBroken_fileStop]
  cases given a.output with
  | none => simp
  | some path => simp [FileTree.failsAs_write]

theorem ending_conclude {findings : Findings} {environment : Option Environment} :
    (∃ b, (conclude t now a findings environment).ending = .error b) ↔
      ConclusionBreaks t now a findings environment := by
  have stops : (∃ b, (conclude t now a findings environment).ending = .error b) ↔
      FailsAs Stop.Breaks (sayFindings a findings environment) ∨ sayFindings a findings environment = .ok () ∧
        (FailsAs (fun fault => (fileStop fault).Breaks) (writeDocument t now a findings) ∨
          ∃ after, writeDocument t now a findings = .ok after ∧ FailsAs Stop.Breaks (sayWritten a)) := by
    unfold conclude
    cases sayFindings a findings environment with
    | error stop => simpa using ending_stopped
    | ok _ =>
      cases writeDocument t now a findings with
      | error fault => simpa using ending_stopped
      | ok after =>
        cases sayWritten a with
        | error stop => simpa using ending_stopped
        | ok _ => simp
  have unwritten : FailsAs (fun fault => (fileStop fault).Breaks) (writeDocument t now a findings) ↔
      (∃ path, given a.output = some path ∧ '\x00' ∈ path) ∨
        FailsAs (fun fault => (fileStop fault).Unshown) (writeDocument t now a findings) := by
    rw [← isBroken_writeDocument]
    exact failsAs_or
  rw [stops, unwritten]
  constructor
  · rintro (stopped | ⟨shown, (⟨path, asked, null⟩ | unshown) | ⟨after, written, stopped⟩⟩)
    · exact .findings stopped
    · exact .nowhere shown asked null
    · exact .message shown unshown
    · exact .path shown written stopped
  · rintro (stopped | ⟨shown, asked, null⟩ | ⟨shown, unshown⟩ | ⟨shown, written, stopped⟩)
    · exact .inl stopped
    · exact .inr ⟨shown, .inl (.inl ⟨_, asked, null⟩)⟩
    · exact .inr ⟨shown, .inl (.inr unshown)⟩
    · exact .inr ⟨shown, .inr ⟨_, written, stopped⟩⟩

/-! ## Run -/

/-- **What breaks a run**, stage by stage. -/
inductive RunBreaks (t : FileTree) (vars : Entries Text) (now : Instant) (a : Arguments) : Prop
  | settings (broken : SettingsBreak t vars a)
  | log {s : Settings} (chosen : chooseSettings t vars a = .ok s) (broken : LogBreaks t s a)
  | environment {s : Settings} {log : Log} {opened : FileTree} (ready : Opened t vars now a s log opened)
      (asked : a.generate = true) (broken : EnvironmentBreaks opened s a)
  | survey {s : Settings} {log : Log} {opened : FileTree} {environment : Option Environment}
      (ready : Opened t vars now a s log opened) (chosen : (chooseEnvironment opened s a).run.value = .ok environment)
      (broken : SurveyBreaks opened now s a environment)
  | conclusion {s : Settings} {log : Log} {opened last : FileTree} {environment : Option Environment}
      {findings : Findings} (ready : Opened t vars now a s log opened)
      (worked : (work opened now s a).run.value = .ok (findings, environment))
      (logged : log.write now (log.kept (work opened now s a).run.events) opened = .ok last)
      (broken : ConclusionBreaks last now a findings environment)

theorem breaks_work : FailsAs Stop.Breaks (work t now s a).run.value ↔
    a.generate = true ∧ EnvironmentBreaks t s a ∨
      ∃ environment, (chooseEnvironment t s a).run.value = .ok environment ∧ SurveyBreaks t now s a environment := by
  have asked : FailsAs Stop.Breaks (chooseEnvironment t s a).run.value ↔
      a.generate = true ∧ EnvironmentBreaks t s a := by
    cases generate : a.generate with
    | true => simpa using breaks_chooseEnvironment generate
    | false =>
      have nothing : (chooseEnvironment t s a).run.value = .ok none := by
        unfold chooseEnvironment
        rw [generate]
        rfl
      simp [nothing]
  have surveyed : ∀ environment, FailsAs Stop.Breaks
      (do pure (← survey t now s a environment, environment) : Run (Findings × Option Environment)).run.value ↔
        SurveyBreaks t now s a environment := by
    intro environment
    rw [value_run_bind, failsAs_bind, breaks_survey, or_iff_left]
    exact fun ⟨_, _, failing⟩ => failing
  unfold work
  rw [value_run_bind, failsAs_bind, asked]
  simp only [surveyed]

/-- A run with its log open breaks where its work does, or at its end: its log can be written. -/
theorem ending_finish {log : Log} {before : FileTree} (opened : log.write now [] before = .ok t)
    {done : Traced (Except Stop (Findings × Option Environment))} :
    (∃ b, (finish t now a log done).ending = .error b) ↔
      FailsAs Stop.Breaks done.value ∨ ∃ findings environment last, done.value = .ok (findings, environment) ∧
        log.write now (log.kept done.events) t = .ok last ∧ ConclusionBreaks last now a findings environment := by
  obtain ⟨last, logged⟩ := write_again opened (log.kept done.events)
  unfold finish
  rw [logged]
  cases done.value with
  | error stop => simpa using ending_stopped
  | ok both => simp [ending_conclude, Prod.ext_iff]

/-- The stages of a run, and where it breaks in each. -/
theorem ending_run {texts : List Text} (parsed : Arguments.ofList texts = .ok a) :
    (∃ b, (run t vars now texts).ending = .error b) ↔ SettingsBreak t vars a ∨
      ∃ s, chooseSettings t vars a = .ok s ∧ (LogBreaks t s a ∨
        ∃ log, openLog s a = .ok log ∧ ∃ opened, log.write now [] t = .ok opened ∧
          (FailsAs Stop.Breaks (work opened now s a).run.value ∨ ∃ findings environment last,
            (work opened now s a).run.value = .ok (findings, environment) ∧
              log.write now (log.kept (work opened now s a).run.events) opened = .ok last ∧
                ConclusionBreaks last now a findings environment)) := by
  unfold run
  simp only [parsed]
  rw [← breaks_chooseSettings]
  cases chooseSettings t vars a with
  | error stop => simpa using ending_stopped
  | ok s =>
    simp only [failsAs_ok, false_or, Except.ok.injEq, exists_eq_left', ← breaks_log now]
    cases openLog s a with
    | error stop => simpa using ending_stopped
    | ok log =>
      simp only [failsAs_ok, false_or, Except.ok.injEq, exists_eq_left']
      cases written : log.write now [] t with
      | error fault => simp [ending_stopped, Stop.Breaks, Stop.IsBroken]
      | ok opened =>
        simp only [not_fails_ok, false_or, Except.ok.injEq, exists_eq_left']
        exact ending_finish written

/-- What breaks the run that a command line asks for. -/
theorem breaks_run {texts : List Text} (parsed : Arguments.ofList texts = .ok a) :
    (∃ b, (run t vars now texts).ending = .error b) ↔ RunBreaks t vars now a := by
  simp only [ending_run parsed, breaks_work]
  constructor
  · rintro (broken | ⟨s, chosen, broken | ⟨log, wrote, opened, read, broken⟩⟩)
    · exact .settings broken
    · exact .log chosen broken
    have ready : Opened t vars now a s log opened := ⟨chosen, wrote, read⟩
    rcases broken with (⟨asked, broken⟩ | ⟨environment, found, broken⟩) |
      ⟨findings, environment, last, worked, logged, broken⟩
    · exact .environment ready asked broken
    · exact .survey ready found broken
    · exact .conclusion ready worked logged broken
  · rintro (broken | ⟨chosen, broken⟩ | ⟨⟨chosen, wrote, read⟩, asked, broken⟩ |
      ⟨⟨chosen, wrote, read⟩, found, broken⟩ | ⟨⟨chosen, wrote, read⟩, worked, logged, broken⟩)
    · exact .inl broken
    · exact .inr ⟨_, chosen, .inl broken⟩
    · exact .inr ⟨_, chosen, .inr ⟨_, wrote, _, read, .inl (.inl ⟨asked, broken⟩)⟩⟩
    · exact .inr ⟨_, chosen, .inr ⟨_, wrote, _, read, .inl (.inr ⟨_, found, broken⟩)⟩⟩
    · exact .inr ⟨_, chosen, .inr ⟨_, wrote, _, read, .inr ⟨_, _, _, worked, logged, broken⟩⟩⟩

example : (run ⟨[['w']], [], [([['w'], "c.json"], Utf8.encode "\x7b\"cache_size\": 0\x7d")]⟩ [] ⟨0⟩
    [".", "--config", "c.json"]).ending = .error (.setting .noRoom) := by decide +kernel

/-- the settings that every run uses are of use -/
structure Usable (s : Settings) : Prop where
  ignored : s.ignored.HoldsNames
  maxFileSize : s.maxFileSize.IsNumber
  cacheSize : s.cacheSize.HasRoom
  logLevel : s.logLevel.NamesLevel
  logFile : s.logFile.AbsentOrText

/-- A target that is there is still there once the log is open. -/
theorem checkTarget_write {log : Log} {records : List LogRecord} {after : FileTree}
    (h : log.write now records t = .ok after) {target : Text} (there : checkTarget t target = .ok ()) :
    checkTarget after target = .ok () := by
  have kept : t.fileExists target = true → after.fileExists target = true := by
    unfold Log.write at h
    cases path : log.path with
    | none =>
      rw [path] at h
      obtain rfl := Except.ok.inj h
      exact id
    | some path' =>
      rw [path] at h
      obtain ⟨place, -, same⟩ := bind_eq_ok_iff.1 h
      obtain rfl := Except.ok.inj same
      exact FileTree.fileExists_insert
  unfold checkTarget at there ⊢
  split at there
  · obtain ⟨_, -, refused⟩ := bind_eq_ok_iff.1 there
    cases refused
  · next here =>
    rw [if_neg here]
    cases present : t.fileExists target with
    | false =>
      rw [present] at there
      cases there
    | true =>
      rw [kept present]
      rfl

/-- **A quiet run with usable settings ends with an exit code**, if it only surveys: its target is there, its log can be
written, and it is asked for no requests, no document and a method that is one. -/
theorem run_ends {texts : List Text} (parsed : Arguments.ofList texts = .ok a)
    (chosen : chooseSettings t vars a = .ok s) (usable : Usable s)
    (writable : ∀ path, Settings.path? s.logFile = .ok (some path) → ¬ Fails (t.locateNew (logPath t path)))
    (there : checkTarget t a.target = .ok ()) (method : a.selection ≠ .unusable) (plain : a.generate = false)
    (quiet : a.quiet = true) (bare : given a.output = none) : ∃ code, (run t vars now texts).ending = .ok code := by
  rw [← not_fails_iff, Fails, failsAs_iff]
  simp only [and_true]
  rw [breaks_run parsed]
  intro broken
  cases broken with
  | settings broken =>
    have stopped := breaks_chooseSettings.2 broken
    rw [chosen] at stopped
    exact stopped
  | log chosen' broken =>
    obtain rfl := Except.ok.inj (chosen.symm.trans chosen')
    rcases broken with ⟨-, value⟩ | value | ⟨named, closed⟩
    · exact value usable.logLevel
    · exact value usable.logFile
    · exact writable _ named closed
  | environment _ asked _ =>
    rw [plain] at asked
    cases asked
  | survey ready _ broken =>
    obtain rfl := Except.ok.inj (chosen.symm.trans ready.chosen)
    have here := checkTarget_write ready.files there
    rcases broken with stopped | ⟨-, value⟩ | ⟨-, -, -, -, value⟩ | ⟨-, -, -, value⟩ | ⟨-, unusable, -⟩ | ⟨-, asked, -⟩
    · rw [here] at stopped
      exact stopped
    · exact value usable.cacheSize
    · exact value usable.ignored
    · exact value usable.maxFileSize
    · exact method unusable
    · rw [plain] at asked
      cases asked
  | conclusion _ _ _ broken =>
    rcases broken with stopped | ⟨-, asked, -⟩ | ⟨-, unshown⟩ | ⟨-, -, stopped⟩
    · rw [sayFindings, quiet] at stopped
      exact stopped
    · rw [bare] at asked
      cases asked
    · rw [writeDocument, bare] at unshown
      exact unshown
    · rw [sayWritten, bare] at stopped
      exact stopped

end CommandLine

end EndpointSurvey
