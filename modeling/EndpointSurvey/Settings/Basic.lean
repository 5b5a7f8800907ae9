/-
The settings of a survey. A setting keeps the value it was given, whatever its type; a value of a type that a setting
cannot mean is found when the setting is used.

Main statements: `completed_ignored` (settings without names to pass over get the usual ones) and
`completed_idempotent`.
-/
import EndpointSurvey.Json.Printer

namespace EndpointSurvey

structure Settings where
  /-- the names of directories and files to pass over -/
  ignored : Json
  /-- the size above which files are skipped, in units of 2^20 bytes -/
  maxFileSize : Json
  cacheSize : Json
  logLevel : Json
  logFile : Json
  environmentsFile : Json
  environment : Json

/-- what shows, when a setting is used, that its value is of no use -/
inductive SettingFault where
  /-- two types whose values have no order -/
  | unordered (relation left right : Text)
  /-- a value that holds no names -/
  | holdsNothing (typeName : Text)
  /-- a cache without room for an entry -/
  | noRoom
  /-- a value that is no text where a text is turned into another case -/
  | notText (typeName conversion : Text)
  /-- a value that is no path -/
  | notPath (typeName : Text)
  /-- a text that is no level of a log -/
  | unknownLevel (level : Text)
  /-- something else than a text or a number in place of a level -/
  | noLevel (shown : Text)
  /-- a number below zero in place of an open file -/
  | negativeFile
  deriving DecidableEq, Repr

def SettingFault.message : SettingFault → Text
  | unordered relation left right =>
    "'" ++ relation ++ "' not supported between instances of '" ++ left ++ "' and '" ++ right ++ "'"
  | holdsNothing typeName => "argument of type '" ++ typeName ++ "' is not iterable"
  | noRoom => "max_entries must be at least 1"
  | notText typeName conversion => "'" ++ typeName ++ "' object has no attribute '" ++ conversion ++ "'"
  | notPath typeName => "expected str, bytes or os.PathLike object, not " ++ typeName
  | unknownLevel level => "Unknown level: " ++ Text.quoted level
  | noLevel shown => "Level not an integer or a valid string: " ++ shown
  | negativeFile => "negative file descriptor"

namespace Settings

/-- the names that are passed over unless others are given: version control, build output, vendored files, editors -/
def usualIgnored : List Text :=
  [".git", ".svn", ".hg", "bin", "obj", ".vs", "packages", "TestResults", "artifacts", "node_modules", "wwwroot",
    ".vscode", ".idea", ".DS_Store"]

/-- the settings of a survey that is given none -/
def initial : Settings :=
  { ignored := .array []
    maxFileSize := .int 10
    cacheSize := .int 256
    logLevel := .string "WARNING"
    logFile := .null
    environmentsFile := .null
    environment := .null }

/-- the settings with the usual names to pass over where none are given -/
def completed (s : Settings) : Settings :=
  if s.ignored.isEmpty then { s with ignored := Json.texts usualIgnored } else s

theorem completed_ignored (s : Settings) : s.completed.ignored.isEmpty = false := by
  unfold completed
  split
  · rfl
  · next h => simpa using h

theorem completed_idempotent (s : Settings) : s.completed.completed = s.completed := by
  have h := completed_ignored s
  generalize s.completed = c at h ⊢
  simp [completed, h]

end Settings

end EndpointSurvey
