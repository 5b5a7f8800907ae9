/-
What breaks a run of the command line before its survey: a setting whose value is of no use where it is used, a log's
file that cannot be written, a file of environments that is unusable, and a message that cannot be shown.

Main statements: `breaks_chooseSettings`, `breaks_log` and `breaks_chooseEnvironment` (what breaks a run at each stage),
`ending_stopped` (a run that stops early breaks unless its message can be shown) and `write_again`.
-/
import EndpointSurvey.CommandLine.Run
import EndpointSurvey.Proofs.Settings.Reading

namespace EndpointSurvey

/-- the value counts as absent, or an open file may be told by it: by a path, or by a number that is not below zero -/
def Json.NamesFile (v : Json) : Prop :=
  v.isEmpty = true ∨
    match v with
    | .string path => '\x00' ∉ path
    | .int n => 0 ≤ n
    | .bool _ => True
    | _ => False

namespace CommandLine

variable {t : FileTree} {vars : Entries Text} {now : Instant} {a : Arguments} {s : Settings}

/-! ## Stops -/

namespace Stop

def IsBroken : Stop → Prop
  | .broken _ => True
  | _ => False

/-- the stop has a message that cannot be shown -/
def Unshown : Stop → Prop
  | .refused message => (Markup.fault? (Span.styled "red" ("Error: " ++ message)).tagged).isSome
  | .failed message => (Markup.fault? ('\n' :: (Span.styled "red" ("Error: " ++ message)).tagged)).isSome
  | .broken _ => False

/-- the stop is no end with an exit code -/
def Breaks (stop : Stop) : Prop := stop.IsBroken ∨ stop.Unshown

end Stop

theorem failsAs_breaks {α : Type} {x : Except Stop α} :
    FailsAs Stop.Breaks x ↔ FailsAs Stop.IsBroken x ∨ FailsAs Stop.Unshown x := failsAs_or

theorem ending_announced {start message : Text} : (∃ b, (announced t start message).ending = .error b) ↔
    (Markup.fault? (start ++ (Span.styled "red" ("Error: " ++ message)).tagged)).isSome := by
  unfold announced saying
  cases Markup.fault? (start ++ (Span.styled "red" ("Error: " ++ message)).tagged) <;> simp

theorem ending_stopped {stop : Stop} : (∃ b, (stopped t stop).ending = .error b) ↔ stop.Breaks := by
  unfold stopped Stop.Breaks
  cases stop with
  | refused message => simp [ending_announced, Stop.IsBroken, Stop.Unshown]
  | failed message => simp [ending_announced, Stop.IsBroken, Stop.Unshown]
  | broken b => simp [Stop.IsBroken]

/-! ## Settings -/

/-- what an error of settings stops -/
def settingsStop : SettingsError → Stop
  | .unhashable typeName => .broken (.settings (.unhashable typeName))
  | .notText fault => .broken (.settings (.notText fault))
  | .unreadableFile _ .nullCharacter => .broken (.file .nullCharacter)
  | e => .refused e.message

theorem isBroken_settingsStop {e : SettingsError} : (settingsStop e).IsBroken ↔ e.Breaks := by
  cases e with
  | unreadableFile path fault => cases fault <;> simp [settingsStop, Stop.IsBroken, SettingsError.Breaks]
  | _ => simp [settingsStop, Stop.IsBroken, SettingsError.Breaks]

theorem chooseSettings_eq : chooseSettings t vars a = (match given a.config with
    | some path => Settings.ofFile? t path
    | none => Settings.ofVariables? vars).mapError settingsStop := by
  unfold chooseSettings
  congr 1

/-- what breaks a run at its settings: the file that is named, or a message about settings -/
inductive SettingsBreak (t : FileTree) (vars : Entries Text) (a : Arguments) : Prop
  | file {path : Text} (named : given a.config = some path) (broken : Settings.FileBreaks t path)
  | message (unshown : FailsAs Stop.Unshown (chooseSettings t vars a))

theorem breaks_chooseSettings : FailsAs Stop.Breaks (chooseSettings t vars a) ↔ SettingsBreak t vars a := by
  have broken : FailsAs Stop.IsBroken (chooseSettings t vars a) ↔
      ∃ path, given a.config = some path ∧ Settings.FileBreaks t path := by
    rw [chooseSettings_eq, failsAs_mapError]
    simp only [isBroken_settingsStop]
    cases given a.config with
    | none => simpa using Settings.not_breaks_ofVariables? vars
    | some path => simpa using Settings.breaks_ofFile?
  rw [failsAs_breaks, broken]
  constructor
  · rintro (⟨path, named, broken⟩ | unshown)
    · exact .file named broken
    · exact .message unshown
  · rintro (⟨named, broken⟩ | unshown)
    · exact .inl ⟨_, named, broken⟩
    · exact .inr unshown

/-! ## Log -/

/-- what a fault of a setting stops -/
def faultStop (fault : SettingFault) : Stop := .broken (.setting fault)

theorem breaks_faultStop {α : Type} {x : Except SettingFault α} :
    FailsAs Stop.Breaks (x.mapError faultStop) ↔ Fails x := by
  rw [failsAs_mapError]
  cases x <;> simp [faultStop, Stop.Breaks, Stop.IsBroken]

/-- what breaks a run at its log: a level that is none, unless every record is asked for, a path that is none, or a file
that cannot be written -/
inductive LogBreaks (t : FileTree) (s : Settings) (a : Arguments) : Prop
  | level (asked : a.verbose = false) (value : ¬ s.logLevel.NamesLevel)
  | path (value : ¬ s.logFile.AbsentOrText)
  | file {path : Text} (named : Settings.path? s.logFile = .ok (some path))
      (closed : Fails (t.locateNew (logPath t path)))

/-- the log that the settings and the command line ask for -/
def wantedLog (s : Settings) (a : Arguments) : Except SettingFault Log := do
  let threshold ← (if a.verbose then .ok Level.debug.weight else s.threshold)
  let path ← Settings.path? s.logFile
  pure ⟨threshold, path⟩

theorem openLog_eq : openLog s a = (wantedLog s a).mapError faultStop := by
  unfold openLog wantedLog
  cases (if a.verbose then .ok Level.debug.weight else s.threshold : Except SettingFault Nat) with
  | error fault => rfl
  | ok threshold => cases Settings.path? s.logFile <;> rfl

theorem fails_wantedLog :
    Fails (wantedLog s a) ↔ a.verbose = false ∧ ¬ s.logLevel.NamesLevel ∨ ¬ s.logFile.AbsentOrText := by
  have weight : Fails (if a.verbose then .ok Level.debug.weight else s.threshold) ↔
      a.verbose = false ∧ ¬ s.logLevel.NamesLevel := by
    rw [← Settings.fails_threshold]
    cases a.verbose <;> simp
  unfold wantedLog
  simp only [fails_bind, weight, Settings.fails_path?, not_fails_pure, and_false, exists_false, or_false]
  by_cases first : a.verbose = false ∧ ¬ s.logLevel.NamesLevel
  · exact iff_of_true (.inl first) (.inl first)
  · obtain ⟨least, found⟩ := not_fails_iff.1 (mt weight.1 first)
    simp [first, found]

theorem fails_write {log : Log} {records : List LogRecord} : Fails (log.write now records t) ↔
    ∃ path, log.path = some path ∧ Fails (t.locateNew (logPath t path)) := by
  unfold Log.write
  cases log.path with
  | none => simp
  | some path => simp [FileTree.fails_append]

/-- A log that has been written can be written again. -/
theorem write_again {log : Log} {records : List LogRecord} {after : FileTree} (h : log.write now records t = .ok after)
    (more : List LogRecord) : ∃ last, log.write now more after = .ok last := by
  rw [← not_fails_iff]
  unfold Log.write at h ⊢
  cases written : log.path with
  | none => simp
  | some path =>
    rw [written] at h
    obtain ⟨directory, again⟩ := FileTree.append_again h
    have same : logPath after path = logPath t path := by
      unfold logPath placeOf FileTree.start
      rw [directory]
    dsimp only
    rw [same]
    exact again _

/-- What breaks a run until its log is open is one of the settings for it, or its file. -/
theorem breaks_log (now : Instant) :
    FailsAs Stop.Breaks (openLog s a) ∨ (∃ log, openLog s a = .ok log ∧ Fails (log.write now [] t)) ↔
      LogBreaks t s a := by
  simp only [openLog_eq, breaks_faultStop, mapError_eq_ok_iff]
  have path_of : ∀ {log}, wantedLog s a = .ok log → Settings.path? s.logFile = .ok log.path := by
    intro log wanted
    obtain ⟨threshold, -, rest⟩ := bind_eq_ok_iff.1 wanted
    obtain ⟨path, found, same⟩ := bind_eq_ok_iff.1 rest
    obtain rfl := Except.ok.inj same
    exact found
  constructor
  · rintro (failing | ⟨log, wanted, closed⟩)
    · rcases fails_wantedLog.1 failing with ⟨asked, value⟩ | value
      · exact .level asked value
      · exact .path value
    · obtain ⟨path, written, closed⟩ := fails_write.1 closed
      exact .file (by rw [path_of wanted, written]) closed
  · rintro (⟨asked, value⟩ | value | ⟨named, closed⟩)
    · exact .inl (fails_wantedLog.2 (.inl ⟨asked, value⟩))
    · exact .inl (fails_wantedLog.2 (.inr value))
    · by_cases failing : Fails (wantedLog s a)
      · exact .inl failing
      · obtain ⟨log, wanted⟩ := not_fails_iff.1 failing
        refine .inr ⟨log, wanted, fails_write.2 ⟨_, ?_, closed⟩⟩
        exact Except.ok.inj ((path_of wanted).symm.trans named)

/-- what is left of a run once its log is open: the settings, and the files there are then -/
structure Opened (t : FileTree) (vars : Entries Text) (now : Instant) (a : Arguments) (s : Settings) (log : Log)
    (after : FileTree) : Prop where
  chosen : chooseSettings t vars a = .ok s
  opened : openLog s a = .ok log
  files : log.write now [] t = .ok after

/-! ## Environment -/

/-- the value that tells the file of environments -/
def environmentsGiven (s : Settings) (a : Arguments) : Json :=
  ((given a.environments).map Json.string).getD s.environmentsFile

/-- a file of environments is no text, or has an address that cannot be split -/
inductive FileUnusable (path : Text) (bytes : List UInt8) : Prop
  | bytes {fault : Utf8.Fault} (undecoded : Json.fileText? path bytes = .error fault)
  | address {content : Text} {fault : Url.Fault} (decoded : Json.fileText? path bytes = .ok content)
      (unsplit : EnvironmentSet.ofFile? path content = .error (.badAuthority fault))

/-- what breaks a run at its environment: a value that tells no file, a file that is unusable, a name that is no text,
or a message -/
inductive EnvironmentBreaks (t : FileTree) (s : Settings) (a : Arguments) : Prop
  | file (value : ¬ (environmentsGiven s a).NamesFile)
  | content {path : Text} {bytes : List UInt8} (told : environmentsGiven s a = .string path) (filled : path ≠ [])
      (there : t.read path = .ok bytes) (unusable : FileUnusable path bytes)
  | name {set : EnvironmentSet} (loaded : (loadEnvironments t (environmentsGiven s a)).run.value = .ok set)
      (unnamed : given a.environment = none) (value : ¬ s.environment.AbsentOrText)
  | message (unshown : FailsAs Stop.Unshown (chooseEnvironment t s a).run.value)

theorem isBroken_environmentStop {e : EnvironmentError} :
    (environmentStop e).IsBroken ↔ ∃ fault, e = .badAuthority fault := by
  cases e <;> simp [environmentStop, Stop.IsBroken]

theorem isBroken_fileStop {fault : FileFault} : (fileStop fault).IsBroken ↔ fault = .nullCharacter := by
  cases fault <;> simp [fileStop, Stop.IsBroken]

/-- what breaks the loading of environments from a file: a path that is none, or a file that is unusable -/
theorem isBroken_loadEnvironments_path {path : Text} (filled : path ≠ []) :
    FailsAs Stop.IsBroken (loadEnvironments t (.string path)).run.value ↔
      '\x00' ∈ path ∨ ∃ bytes, t.read path = .ok bytes ∧ FileUnusable path bytes := by
  have present : (Json.string path).isEmpty = false := by simpa [Json.isEmpty] using filled
  unfold loadEnvironments
  simp only [present, Bool.false_eq_true, if_false]
  cases reading : t.read path with
  | error fault =>
    simpa [← FileTree.eq_nullCharacter_iff reading] using isBroken_fileStop
  | ok bytes =>
    simp only [FileTree.not_mem_of_read reading, false_or, Except.ok.injEq, exists_eq_left']
    cases decoding : Json.fileText? path bytes with
    | error fault => exact iff_of_true trivial (.bytes decoding)
    | ok content =>
      simp only [Except.mapError]
      cases read : EnvironmentSet.ofFile? path content with
      | error e =>
        refine isBroken_environmentStop.trans ?_
        constructor
        · rintro ⟨fault, rfl⟩
          exact .address decoding read
        · rintro (undecoded | ⟨decoded, unsplit⟩)
          · rw [decoding] at undecoded
            cases undecoded
          · obtain rfl := Except.ok.inj (decoding.symm.trans decoded)
            exact ⟨_, Except.error.inj (read.symm.trans unsplit)⟩
      | ok set =>
        refine iff_of_false (failsAs_ok set) ?_
        rintro (undecoded | ⟨decoded, unsplit⟩)
        · rw [decoding] at undecoded
          cases undecoded
        · obtain rfl := Except.ok.inj (decoding.symm.trans decoded)
          rw [read] at unsplit
          cases unsplit

theorem isBroken_loadEnvironments {v : Json} : FailsAs Stop.IsBroken (loadEnvironments t v).run.value ↔
    ¬ v.NamesFile ∨ ∃ path bytes, v = .string path ∧ path ≠ [] ∧ t.read path = .ok bytes ∧ FileUnusable path bytes := by
  by_cases absent : v.isEmpty = true
  · have loaded : (loadEnvironments t v).run.value = .ok .builtIn := by
      unfold loadEnvironments
      rw [if_pos absent]
      rfl
    rw [loaded]
    refine iff_of_false (failsAs_ok _) ?_
    rintro (value | ⟨path, bytes, rfl, filled, -⟩)
    · exact value (.inl absent)
    · exact filled (List.isEmpty_iff.1 absent)
  · cases v with
    | string path =>
      have filled : path ≠ [] := by simpa [Json.isEmpty] using absent
      rw [isBroken_loadEnvironments_path filled]
      simp [Json.NamesFile, absent, filled]
    | int n =>
      unfold loadEnvironments
      rw [if_neg absent]
      show (if n < 0 then _ else _ : Stop).IsBroken ↔ _
      by_cases negative : n < 0
      · simp [negative, Json.NamesFile, absent, Stop.IsBroken]
      · simp [negative, Json.NamesFile, absent, Stop.IsBroken, Int.not_lt.1 negative]
    | _ =>
      unfold loadEnvironments
      simp only [absent, Bool.false_eq_true, if_false]
      simp [Json.NamesFile, absent, Stop.IsBroken]

theorem isBroken_wantedName :
    FailsAs Stop.IsBroken (wantedName s a) ↔ given a.environment = none ∧ ¬ s.environment.AbsentOrText := by
  unfold wantedName Json.AbsentOrText
  cases given a.environment with
  | some name => simp
  | none =>
    generalize s.environment = v
    by_cases absent : v.isEmpty = true
    · simp [absent]
    · cases v <;> simp [absent, Stop.IsBroken]

/-- An environment that is looked for is found, or its name is unknown. -/
theorem not_isBroken_get? (set : EnvironmentSet) (name : Option Text) :
    ¬ FailsAs (fun e => (environmentStop e).IsBroken) (set.get? name) := by
  unfold EnvironmentSet.get?
  dsimp only
  split <;> simp [environmentStop, Stop.IsBroken]

theorem breaks_chooseEnvironment (asked : a.generate = true) :
    FailsAs Stop.Breaks (chooseEnvironment t s a).run.value ↔ EnvironmentBreaks t s a := by
  have broken : FailsAs Stop.IsBroken (chooseEnvironment t s a).run.value ↔
      FailsAs Stop.IsBroken (loadEnvironments t (environmentsGiven s a)).run.value ∨
        ∃ set, (loadEnvironments t (environmentsGiven s a)).run.value = .ok set ∧
          FailsAs Stop.IsBroken (wantedName s a) := by
    unfold chooseEnvironment
    simp only [asked, Bool.not_true, Bool.false_eq_true, if_false]
    rw [value_run_bind, failsAs_bind]
    refine or_congr Iff.rfl (exists_congr fun set => and_congr_right fun _ => ?_)
    rw [value_run_bind, failsAs_bind, or_iff_left]
    · rfl
    · rintro ⟨name, -, failing⟩
      have known := not_isBroken_get? set name
      cases found : set.get? name with
      | ok e =>
        rw [found] at failing
        exact failing
      | error e =>
        rw [found] at failing known
        exact known failing
  rw [failsAs_breaks, broken, isBroken_loadEnvironments, isBroken_wantedName]
  constructor
  · rintro (((value | ⟨path, bytes, told, filled, there, unusable⟩) | ⟨set, loaded, unnamed, value⟩) | unshown)
    · exact .file value
    · exact .content told filled there unusable
    · exact .name loaded unnamed value
    · exact .message unshown
  · rintro (value | ⟨told, filled, there, unusable⟩ | ⟨loaded, unnamed, value⟩ | unshown)
    · exact .inl (.inl (.inl value))
    · exact .inl (.inl (.inr ⟨_, _, told, filled, there, unusable⟩))
    · exact .inl (.inr ⟨_, loaded, unnamed, value⟩)
    · exact .inr unshown

end CommandLine

end EndpointSurvey
