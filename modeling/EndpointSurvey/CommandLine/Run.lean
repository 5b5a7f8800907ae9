/-
A run of the command line over the files there are: settings are chosen, the log is opened, the environment is chosen,
the target is surveyed, requests are made, and the document is written. A run ends with an exit code, or breaks where a
setting turns out to be of no use.

Main statements: `run_usage` (a faulty command line ends a run before anything is touched) and `kept_weight` (a log
keeps nothing below its threshold).
-/
import EndpointSurvey.CommandLine.Arguments
import EndpointSurvey.Environment.Set
import EndpointSurvey.Report.Export
import EndpointSurvey.Report.Markup
import EndpointSurvey.Report.Tables
import EndpointSurvey.Settings.Reading

namespace EndpointSurvey.CommandLine

/-- what breaks a run -/
inductive Breakdown where
  | setting (fault : SettingFault)
  | settings (e : SettingsError)
  | template (e : Template.Error)
  | environment (e : EnvironmentError)
  | file (fault : FileFault)
  /-- a file of environments whose bytes are no text -/
  | notText (fault : Utf8.Fault)
  /-- something to be said that cannot be shown -/
  | markup (fault : Markup.Fault)
  deriving DecidableEq, Repr

def Breakdown.message : Breakdown → Text
  | setting fault => fault.message
  | settings e => e.message
  | template e => e.message
  | environment e => e.message
  | file fault => fault.message
  | notText fault => fault.message
  | markup fault => fault.message

/-- why a run stops early: with a message and an exit code, or broken -/
inductive Stop where
  /-- with a message before any work is done -/
  | refused (message : Text)
  /-- with a message below what has been said -/
  | failed (message : Text)
  | broken (b : Breakdown)
  deriving DecidableEq, Repr

/-- what a fault of a file stops: a run that goes on to end in order, unless the path is none at all -/
def fileStop : FileFault → Stop
  | .nullCharacter => .broken (.file .nullCharacter)
  | fault => .failed fault.message

/-- a run in progress, with the events that happen -/
abbrev Run := ExceptT Stop Traced

def ofExcept {α : Type} (x : Except Stop α) : Run α := ExceptT.mk (pure x)

/-- a text that is given and not empty -/
def given (t : Option Text) : Option Text := t.filter (!·.isEmpty)

/-! ## Settings and log -/

/-- the settings of the file that is named, else those of the variables -/
def chooseSettings (t : FileTree) (vars : Entries Text) (a : Arguments) : Except Stop Settings :=
  let chosen := match given a.config with
    | some path => Settings.ofFile? t path
    | none => Settings.ofVariables? vars
  chosen.mapError fun
    | .unhashable typeName => .broken (.settings (.unhashable typeName))
    | .notText fault => .broken (.settings (.notText fault))
    | .unreadableFile _ .nullCharacter => .broken (.file .nullCharacter)
    | e => .refused e.message

structure Log where
  /-- the least weight of a record that is kept -/
  threshold : Nat
  path : Option Text
  deriving DecidableEq, Repr

def openLog (s : Settings) (a : Arguments) : Except Stop Log := do
  let faulty := fun (fault : SettingFault) => Stop.broken (.setting fault)
  let threshold ← (if a.verbose then .ok Level.debug.weight else s.threshold).mapError faulty
  let path ← (Settings.path? s.logFile).mapError faulty
  pure ⟨threshold, path⟩

/-- the records that a log keeps of events -/
def Log.kept (log : Log) (events : List Event) : List LogRecord :=
  (events.map Event.record).filter fun r => log.threshold ≤ r.level.weight

theorem kept_weight (log : Log) (events : List Event) : ∀ r ∈ log.kept events, log.threshold ≤ r.level.weight := by
  intro r hr
  simpa using (List.mem_filter.1 hr).2

/-- a record on a line of its own -/
def recordLine (now : Instant) (r : LogRecord) : Text :=
  (Json.record
    [("timestamp", .string (now.date ++ 'T' :: now.timeOfDay)), ("level", .string r.level.name),
      ("logger", .string r.channel.name), ("message", .string r.message)]).write ++ ['\n']

/-- the path of a log's file from the root; one with a null character is left as it is -/
def logPath (t : FileTree) (path : Text) : Text :=
  if path.elem '\x00' then path else fullPath (placeOf t path)

/-- the tree with records at the end of the log's file, if it has one; the path is resolved by its names alone -/
def Log.write (log : Log) (now : Instant) (records : List LogRecord) (t : FileTree) : Except FileFault FileTree :=
  match log.path with
  | none => .ok t
  | some path => t.append (logPath t path) (Utf8.encode (records.flatMap (recordLine now)))

/-! ## Environment -/

def environmentStop (e : EnvironmentError) : Stop :=
  match e with
  | .badAuthority _ => .broken (.environment e)
  | e => .failed e.message

/-- what is said of a number that stands for no open file -/
def noOpenFile : Text := "[Errno 9] Bad file descriptor"

/-- the environments in a file, or the built-in ones where no file is named -/
def loadEnvironments (t : FileTree) (file : Json) : Run EnvironmentSet :=
  if file.isEmpty then pure .builtIn
  else match file with
    | .string path =>
      match t.read path with
      | .error fault => throw (fileStop fault)
      | .ok bytes =>
        match (Json.fileText? path bytes).mapError Breakdown.notText with
        | .error b => throw (.broken b)
        | .ok content =>
          match EnvironmentSet.ofFile? path content with
          | .error e => throw (environmentStop e)
          | .ok set => do
            ExceptT.lift (Traced.emit (set.loaded path))
            pure set
    | .int n => throw (if n < 0 then .broken (.setting .negativeFile) else .failed noOpenFile)
    | .bool _ => throw (.failed noOpenFile)
    | other => throw (.broken (.setting (.notPath other.typeName)))

/-- the name of the environment that is wanted; without one the current environment is -/
def wantedName (s : Settings) (a : Arguments) : Except Stop (Option Text) :=
  match given a.environment with
  | some name => .ok (some name)
  | none =>
    if s.environment.isEmpty then .ok none
    else match s.environment with
      | .string name => .ok (some name)
      | other => .error (.broken (.setting (.notText other.typeName "lower")))

/-- the environment of the requests, if requests are asked for -/
def chooseEnvironment (t : FileTree) (s : Settings) (a : Arguments) : Run (Option Environment) :=
  if !a.generate then pure none
  else do
    let set ← loadEnvironments t (((given a.environments).map Json.string).getD s.environmentsFile)
    let name ← ofExcept (wantedName s a)
    match set.get? name with
    | .ok e => pure (some e)
    | .error e => throw (environmentStop e)

/-! ## Survey -/

/-- the starts of targets that lie elsewhere -/
def remoteStarts : List Text := ["http://", "https://", "git@"]

/-- breaks where a text cannot be shown -/
def saying (t : Text) : Except Stop Unit :=
  match Markup.fault? t with
  | some fault => .error (.broken (.markup fault))
  | none => .ok ()

/-- stops at a target that cannot be surveyed -/
def checkTarget (t : FileTree) (target : Text) : Except Stop Unit := do
  if remoteStarts.any (Text.startsWith · target) then
    saying (Span.styled "cyan" ("Cloning: " ++ target)).tagged
    throw (.failed ("Cannot fetch " ++ target))
  else if !t.fileExists target then throw (.refused (target ++ " not found"))

/-- the findings that a command line asks for -/
def selected (done : Survey) : Selection → Except SettingFault (List Finding)
  | .every => .ok (done.findingsOf none)
  | .only method => .ok (done.findingsOf (some method))
  | .unusable => if (done.findingsOf none).isEmpty then .ok [] else .error (.notText "list" "upper")

structure Findings where
  survey : Survey
  found : List Finding
  requests : Option (List Request)

/-- surveys the target and makes requests where they are asked for -/
def survey (t : FileTree) (now : Instant) (s : Settings) (a : Arguments) (environment : Option Environment) :
    Run Findings := do
  ofExcept (checkTarget t a.target)
  let fresh ← ofExcept ((Survey.start? s a.target none).mapError fun fault => .broken (.setting fault))
  let (done, fault) ← ExceptT.lift (fresh.run t t)
  if let some fault := fault then throw (.broken (.setting fault))
  let found ← ofExcept ((selected done a.selection).mapError fun fault => .broken (.setting fault))
  if !a.generate then pure ⟨done, found, none⟩
  else match ← ExceptT.lift (done.requests now (environment.map (·.draft)) found) with
    | .ok requests => pure ⟨done, found, some requests⟩
    | .error (.template e) => throw (.broken (.template e))
    | .error (.environment e) => throw (environmentStop e)

/-! ## Output -/

/-- how many requests have been made, if any -/
def requestSpans (f : Findings) (environment : Option Environment) : List Span :=
  match f.requests, environment with
  | some (_ :: rest), some e =>
    [.styled "cyan" (" Synthesized " ++ Text.ofNat (rest.length + 1) ++ " requests for " ++ e.name)]
  | _, _ => []

def tables (a : Arguments) (f : Findings) : List (List (List Span)) :=
  [Report.endpointRows f.found, if a.showWarnings then Report.warningRows f.survey.reports else []]

/-- the cells of a table column by column, as its widths are found -/
def byColumn (rows : List (List Span)) : List Span :=
  (List.range ((rows.head?.map List.length).getD 0)).flatMap fun column => rows.filterMap (·[column]?)

/-- breaks where something that is to be said of the findings cannot be shown -/
def sayFindings (a : Arguments) (f : Findings) (environment : Option Environment) : Except Stop Unit :=
  if a.quiet then .ok ()
  else ((tables a f).flatMap byColumn ++ requestSpans f environment).forM fun span => saying span.tagged

/-- breaks where the path of the document cannot be shown -/
def sayWritten (a : Arguments) : Except Stop Unit :=
  match given a.output with
  | some path => if a.quiet then .ok () else saying ('\n' :: (Span.styled "green" (" Saved: " ++ path)).tagged)
  | none => .ok ()

/-- the lines for the terminal -/
def consoleLines (a : Arguments) (f : Findings) (environment : Option Environment) : List Text :=
  let row := fun (cells : List Span) => Text.join "  " (cells.map (·.text))
  if a.quiet then []
  else plainText (Report.summarySpans f.survey.summary) :: (tables a f).flatten.map row ++
    (requestSpans f environment).map (·.text)

/-- the tree with the document, where one is asked for -/
def writeDocument (t : FileTree) (now : Instant) (a : Arguments) (f : Findings) : Except FileFault FileTree :=
  match given a.output with
  | none => .ok t
  | some path =>
    let document := Report.documentValue f.survey a.target now f.found f.requests
    t.write path (Utf8.encode (document.writeLines 0))

/-! ## Run -/

/-- how a run ends: an exit code or a breakdown, the files after it, and the lines for the terminal -/
structure Outcome where
  ending : Except Breakdown Nat
  tree : FileTree
  console : List Text

def failureCode : Nat := 1

def usageCode : Nat := 2

/-- a run that ends with a message, which is said after `start` -/
def announced (t : FileTree) (start message : Text) : Outcome :=
  match saying (start ++ (Span.styled "red" ("Error: " ++ message)).tagged) with
  | .error (.broken b) => ⟨.error b, t, [b.message]⟩
  | _ => ⟨.ok failureCode, t, ["Error: " ++ message]⟩

/-- a run that stops early -/
def stopped (t : FileTree) : Stop → Outcome
  | .refused message => announced t [] message
  | .failed message => announced t ['\n'] message
  | .broken b => ⟨.error b, t, [b.message]⟩

def synopsis : Text :=
  "usage: [-h] [-o OUTPUT] [--show-warnings] [--method METHOD] [--generate] [--environments FILE] [--env NAME] " ++
    "[--config FILE] [-v] [--version] [--quiet] target"

/-- the run that a command line asks for, with the log open -/
def work (t : FileTree) (now : Instant) (s : Settings) (a : Arguments) : Run (Findings × Option Environment) := do
  let environment ← chooseEnvironment t s a
  pure (← survey t now s a environment, environment)

/-- the end of a run with its findings, once its log is written -/
def conclude (t : FileTree) (now : Instant) (a : Arguments) (findings : Findings) (environment : Option Environment) :
    Outcome :=
  match sayFindings a findings environment with
  | .error stop => stopped t stop
  | .ok _ =>
    match writeDocument t now a findings with
    | .error fault => stopped t (fileStop fault)
    | .ok t =>
      match sayWritten a with
      | .error stop => stopped t stop
      | .ok _ => ⟨.ok 0, t, consoleLines a findings environment⟩

/-- the end of a run with its log -/
def finish (t : FileTree) (now : Instant) (a : Arguments) (log : Log)
    (done : Traced (Except Stop (Findings × Option Environment))) : Outcome :=
  match log.write now (log.kept done.events) t with
  | .error fault => stopped t (.broken (.file fault))
  | .ok t =>
    match done.value with
    | .error stop => stopped t stop
    | .ok (findings, environment) => conclude t now a findings environment

/-- a run over the files there are, with the variables of its process, at an instant -/
def run (t : FileTree) (vars : Entries Text) (now : Instant) (texts : List Text) : Outcome :=
  match Arguments.ofList texts with
  | .error .help => ⟨.ok 0, t, [synopsis]⟩
  | .error .version => ⟨.ok 0, t, [version]⟩
  | .error (.usage e) => ⟨.ok usageCode, t, [synopsis, "error: " ++ e.message]⟩
  | .ok a =>
    match chooseSettings t vars a with
    | .error stop => stopped t stop
    | .ok s =>
      match openLog s a with
      | .error stop => stopped t stop
      | .ok log =>
        match log.write now [] t with
        | .error fault => stopped t (.broken (.file fault))
        | .ok t => finish t now a log (work t now s a).run

theorem run_usage {texts : List Text} {e : UsageError} (h : Arguments.ofList texts = .error (.usage e)) (t : FileTree)
    (vars : Entries Text) (now : Instant) :
    (run t vars now texts).tree = t ∧ (run t vars now texts).ending = .ok usageCode := by
  simp [run, h]

end EndpointSurvey.CommandLine
