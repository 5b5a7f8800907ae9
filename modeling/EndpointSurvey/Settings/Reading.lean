/-
Settings from the variables of an environment and from a file.
-/
import EndpointSurvey.Json.File
import EndpointSurvey.Number.Integer
import EndpointSurvey.Project.FileTree
import EndpointSurvey.Settings.Basic

namespace EndpointSurvey

/-- what is wrong with given settings -/
inductive SettingsError where
  /-- a variable that writes no whole number -/
  | notInteger (value : Text)
  /-- a variable with a number of so many digits, which are too many -/
  | tooManyDigits (count : Nat)
  | unreadableFile (path : Text) (fault : FileFault)
  /-- a file whose bytes are no text -/
  | notText (fault : Utf8.Fault)
  | malformedFile (path : Text)
  | fileNotObject (path : Text)
  | unknownSetting (path name : Text)
  /-- a name that stands for the settings themselves -/
  | reservedSetting (path name : Text)
  /-- a value that cannot be a name in a set -/
  | unhashable (typeName : Text)
  deriving DecidableEq, Repr

def SettingsError.message : SettingsError → Text
  | notInteger value =>
    "Invalid ENDPOINT_LENS_* setting: invalid literal for int() with base 10: " ++ (Text.quoted value).take 200
  | tooManyDigits count =>
    "Invalid ENDPOINT_LENS_* setting: Exceeds the limit (" ++ Text.ofNat Integer.digitLimit ++
      " digits) for integer string conversion: value has " ++ Text.ofNat count ++
      " digits; use sys.set_int_max_str_digits() to increase the limit"
  | unreadableFile path fault => "Cannot read config file " ++ path ++ ": " ++ fault.message
  | notText fault => fault.message
  | malformedFile path => "Cannot read config file " ++ path
  | fileNotObject path => "Config file " ++ path ++ " must contain a mapping"
  | unknownSetting path name =>
    "Unknown setting in " ++ path ++ ": AnalyzerConfig.__init__() got an unexpected keyword argument '" ++ name ++ "'"
  | reservedSetting path name =>
    "Unknown setting in " ++ path ++ ": AnalyzerConfig.__init__() got multiple values for argument '" ++ name ++ "'"
  | unhashable typeName => "unhashable type: '" ++ typeName ++ "'"

namespace Settings

/-! ## Variables -/

/-- the variable of a setting -/
def variableName (setting : Text) : Text := "ENDPOINT_LENS_" ++ setting

/-- the text of a setting's variable -/
def given? (vars : Entries Text) (setting : Text) : Option Text :=
  Entries.lookup? (variableName setting) vars

/-- the number that a variable writes, or another one if it is not set -/
def integer (vars : Entries Text) (setting : Text) (otherwise : Int) : Except SettingsError Json :=
  match given? vars setting with
  | none => .ok (.int otherwise)
  | some value =>
    match Integer.excess? value, Integer.read? value with
    | some count, _ => .error (.tooManyDigits count)
    | none, some n => .ok (.int n)
    | none, none => .error (.notInteger value)

/-- the names in a list with commas, each once -/
def namesIn (t : Text) : List Text :=
  ((Text.splitOn ',' t).map Text.trim).filter (!·.isEmpty) |>.eraseDups

/-- the settings that the variables give; the size limit is read before the size of the cache -/
def ofVariables? (vars : Entries Text) : Except SettingsError Settings := do
  let ignored := namesIn ((given? vars "IGNORE_DIRS").getD [])
  let maxFileSize ← integer vars "MAX_FILE_SIZE" 10
  let cacheSize ← integer vars "CACHE_SIZE" 256
  let asGiven := fun (setting : Text) (otherwise : Json) => ((given? vars setting).map Json.string).getD otherwise
  pure <| completed
    { ignored := Json.texts ignored
      maxFileSize := maxFileSize
      cacheSize := cacheSize
      logLevel := asGiven "LOG_LEVEL" initial.logLevel
      logFile := asGiven "LOG_FILE" initial.logFile
      environmentsFile := asGiven "ENVIRONMENTS" initial.environmentsFile
      environment := asGiven "ENV" initial.environment }

/-! ## Files -/

/-- the number that a value is equal to: a truth value counts as zero or one -/
def number? : Json → Option (Int × Nat)
  | .bool b => some (if b then 1 else 0, 1)
  | .int n => some (n, 1)
  | .float (.finite negative m e) =>
    let (num, den) := Binary64.ratio m e
    some (if negative then -(num : Int) else num, den)
  | _ => none

/-- are two values the same entry of a set? -/
def sameEntry : Json → Json → Bool
  | .null, .null => true
  | .string a, .string b => a == b
  | .float (.infinite a), .float (.infinite b) => a == b
  | a, b =>
    match number? a, number? b with
    | some (m, d), some (n, e) => m * e == n * d
    | _, _ => false

/-- the values of a list, each once; a list or an object cannot be one of them -/
def entrySet (kept : List Json) : List Json → Except SettingsError (List Json)
  | [] => .ok kept
  | .array items :: _ => .error (.unhashable (Json.array items).typeName)
  | .object members :: _ => .error (.unhashable (Json.object members).typeName)
  | v :: rest => entrySet (if kept.any (sameEntry v) then kept else kept ++ [v]) rest

/-- the name that no setting can have -/
def reservedName : Text := "self"

/-- the settings with one more given, unless there is no setting of the name -/
def withMember? (name : Text) (value : Json) (s : Settings) : Option Settings :=
  match String.ofList name with
  | "ignore_dirs" => some { s with ignored := value }
  | "max_file_size_mb" => some { s with maxFileSize := value }
  | "cache_size" => some { s with cacheSize := value }
  | "log_level" => some { s with logLevel := value }
  | "log_file" => some { s with logFile := value }
  | "environments_file" => some { s with environmentsFile := value }
  | "environment" => some { s with environment := value }
  | _ => none

/-- the settings with the members of a file's object -/
def withMembers (path : Text) (s : Settings) : List (Text × Json) → Except SettingsError Settings
  | [] => .ok s
  | (name, value) :: rest =>
    if name = reservedName then .error (.reservedSetting path name)
    else match withMember? name value s with
      | some s => withMembers path s rest
      | none => .error (.unknownSetting path name)

/-- the members with the names to pass over as a set -/
def withEntrySet (members : List (Text × Json)) : Except SettingsError (List (Text × Json)) :=
  match Entries.lookup? "ignore_dirs" members with
  | some (.array items) => do
    let entries ← entrySet [] items
    pure (Entries.insert "ignore_dirs" (.array entries) members)
  | _ => .ok members

/-- the settings that the content of a file gives -/
def ofContent? (path content : Text) : Except SettingsError Settings :=
  match Json.ofFile? path content with
  | none => .error (.malformedFile path)
  | some (.object members) => do
    let members ← withEntrySet members
    let s ← withMembers path initial members
    pure s.completed
  | some _ => .error (.fileNotObject path)

/-- the settings in a file -/
def ofFile? (t : FileTree) (path : Text) : Except SettingsError Settings :=
  match t.read path with
  | .error fault => .error (.unreadableFile path fault)
  | .ok bytes =>
    match Json.fileText? path bytes with
    | .error fault => .error (.notText fault)
    | .ok content => ofContent? path content

end Settings

end EndpointSurvey
