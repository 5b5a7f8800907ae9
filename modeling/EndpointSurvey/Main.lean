/-
The command line itself. It reads the files that a run may look at, the variables and the clock, lets the run decide,
writes the files that the run changed, and prints its lines.
-/
import EndpointSurvey.CommandLine.Run
import Std.Time.DateTime.Timestamp

namespace EndpointSurvey.CommandLine

/-- where a place is in the file system -/
def systemPath (place : Place) : String := String.ofList (fullPath place)

/-- the variables that settings are taken from -/
def variableNames : List Text :=
  ["IGNORE_DIRS", "MAX_FILE_SIZE", "CACHE_SIZE", "LOG_LEVEL", "LOG_FILE", "ENVIRONMENTS", "ENV"].map
    fun (name : String) => Settings.variableName name

/-- the files that differ after a run -/
def changed (before after : FileTree) : List (Place × List UInt8) :=
  after.files.filter fun (place, bytes) => before.content? place != some bytes

/-! ## Reading -/

def isDirectory (place : Place) : IO Bool := do
  (← IO.currentDir) / systemPath place |>.isDir

def addDirectory (place : Place) (t : FileTree) : FileTree := { t with directories := place :: t.directories }

/-- the tree with what is at a path, and with the directory above it -/
def addPath (t : FileTree) (path : Text) : IO FileTree := do
  let place := placeOf t path
  let t := if ← isDirectory place.dropLast then addDirectory place.dropLast t else t
  if ← isDirectory place then return addDirectory place t
  let here ← IO.currentDir
  if ← (here / systemPath place).pathExists then
    let bytes ← IO.FS.readBinFile (systemPath place)
    return t.insert place bytes.toList
  return t

/-- the tree with the files below a directory; only source files are read -/
partial def addBelow (s : Settings) (place : Place) (t : FileTree) : IO FileTree := do
  let here ← IO.currentDir
  let mut t := addDirectory place t
  for entry in ← (here / systemPath place).readDir do
    let name := entry.fileName.toList
    let below := place ++ [name]
    if ← isDirectory below then
      match s.ignores name with
      | .ok true => t := addDirectory below t
      | _ => t ← addBelow s below t
    else if !t.holdsFile below then
      if (extension name).lower = sourceExtension then
        let bytes ← IO.FS.readBinFile (systemPath below)
        t := t.insert below bytes.toList
      else t := t.insert below []
  return t

def textOf? : Json → List Text
  | .string t => [t]
  | _ => []

/-- the files that a run with these arguments may look at -/
def snapshot (here : Place) (vars : Entries Text) (a : Arguments) : IO FileTree := do
  let t : FileTree := ⟨here, [], []⟩
  let t ← (a.config.toList).foldlM addPath t
  match chooseSettings t vars a with
  | .error _ => return t
  | .ok s =>
    let named := textOf? s.environmentsFile ++ textOf? s.logFile
    let paths := a.environments.toList ++ named ++ a.output.toList ++ [a.target]
    let t ← paths.foldlM addPath t
    let place := placeOf t a.target
    if ← isDirectory place then addBelow s place t else return t

def readVariables : IO (Entries Text) := do
  let mut vars := []
  for name in variableNames do
    if let some value ← IO.getEnv (String.ofList name) then
      vars := vars ++ [(name, value.toList)]
  return vars

end EndpointSurvey.CommandLine

open EndpointSurvey in
open CommandLine in
def main (arguments : List String) : IO UInt32 := do
  let texts := arguments.map String.toList
  let here := pathNames (← IO.currentDir).toString.toList
  let vars ← readVariables
  let now ← Std.Time.Timestamp.now
  let before ← match Arguments.ofList texts with
    | .ok a => snapshot here vars a
    | .error _ => pure ⟨here, [], []⟩
  let outcome := CommandLine.run before vars ⟨now.toSecondsSinceUnixEpoch.val⟩ texts
  for (place, bytes) in changed before outcome.tree do
    IO.FS.writeBinFile (systemPath place) ⟨bytes.toArray⟩
  for line in outcome.console do
    IO.println (String.ofList line)
  match outcome.ending with
  | .ok code => return UInt32.ofNat code
  | .error _ => return UInt32.ofNat failureCode
