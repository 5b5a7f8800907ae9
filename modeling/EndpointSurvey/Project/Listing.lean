/-
Which files a target stands for: itself, if it is a file, else the source files below it. Below an ignored directory
nothing is looked at; other files that are not surveyed are counted.

Main statements: `extension_of_plain` (a name without a dot has no extension) and `resolved_append` (a further name leads
one step down).
-/
import EndpointSurvey.Project.FileTree
import EndpointSurvey.Settings.Meaning

namespace EndpointSurvey

/-! ## Targets -/

/-- the names in a path text, without the empty ones and single dots -/
def pathNames (path : Text) : List Text := (Text.splitOn '/' path).filter fun name => !name.isEmpty && name != ['.']

/-- a path text from its names -/
def pathText (rooted : Bool) (names : List Text) : Text :=
  if rooted then '/' :: Text.join ['/'] names
  else if names.isEmpty then ['.']
  else Text.join ['/'] names

/-- the place that names lead to, up at each pair of dots, whatever may be there -/
def resolved (start : Place) (names : List Text) : Place :=
  names.foldl (fun place name => if name = FileTree.parentName then place.dropLast else place ++ [name]) start

theorem resolved_append {name : Text} (h : name ≠ FileTree.parentName) (start : Place) (names : List Text) :
    resolved start (names ++ [name]) = resolved start names ++ [name] := by
  simp [resolved, h]

/-- the place that a path text names, whatever may be there -/
def placeOf (t : FileTree) (path : Text) : Place := resolved (t.start path) (pathNames path)

/-- the path text from the root to a place -/
def fullPath (place : Place) : Text := pathText true place

/-- the same path text without empty names and single dots -/
def tidyPath (path : Text) : Text := pathText (path.head? = some '/') (pathNames path)

/-- the last name of a path text -/
def lastName (path : Text) : Text := ((pathNames path).getLast?).getD []

/-- the extension of a name with its dot; a dot at either end starts none -/
def extension (name : Text) : Text :=
  let tail := Text.afterLast '.' name
  if !tail.isEmpty && tail.length + 1 < name.length then '.' :: tail else []

theorem extension_of_plain {name : Text} (h : '.' ∉ name) : extension name = [] := by
  have reversed : Text.beforeFirst '.' name.reverse = name.reverse := Text.beforeFirst_of_not_mem (by simpa using h)
  unfold Text.beforeFirst at reversed
  simp [extension, Text.afterLast, Text.takeEnd, reversed]

/-- the extension of source files -/
def sourceExtension : Text := ".cs"

/-! ## Files -/

/-- a file to survey -/
structure ListedFile where
  place : Place
  /-- its path as the target leads to it -/
  path : Text
  /-- its path in reports -/
  shown : Text
  deriving DecidableEq, Repr

/-- what a walk makes of a file -/
inductive Standing where
  | hidden
  | passedOver
  | listed
  deriving DecidableEq, Repr

structure Listing where
  files : List ListedFile
  passedOver : Nat
  deriving DecidableEq, Repr

namespace Listing

def empty : Listing := ⟨[], 0⟩

def ignoresAny (s : Settings) (names : List Text) : Except SettingFault Bool := names.anyM s.ignores

/-- the standing of a file below the target -/
def standing (s : Settings) (names : List Text) : Except SettingFault Standing := do
  if ← ignoresAny s names.dropLast then pure .hidden
  else if (extension (names.getLast?.getD [])).lower != sourceExtension then pure .passedOver
  else if ← ignoresAny s names then pure .passedOver
  else pure .listed

/-- the files below a directory; a directory's names are looked at even if it is empty -/
def ofDirectory (s : Settings) (t : FileTree) (target : Text) (place : Place) : Except SettingFault Listing := do
  let _ ← (t.directoriesBelow place).mapM (ignoresAny s)
  let found ← (t.walk place).mapM fun names => do pure (names, ← standing s names)
  let listed := (found.filter (·.2 == .listed)).map (·.1)
  let above := pathNames target
  pure
    { files := listed.map fun names =>
        ⟨place ++ names, pathText (target.head? = some '/') (above ++ names), pathText false names⟩
      passedOver := (found.filter (·.2 == .passedOver)).length }

/-- the files that a target stands for -/
def ofTarget (s : Settings) (t : FileTree) (target : Text) : Except SettingFault Listing :=
  match t.locate (tidyPath target) with
  | .error _ => .ok empty
  | .ok place =>
    if t.holdsFile place then .ok ⟨[⟨place, tidyPath target, lastName target⟩], 0⟩
    else ofDirectory s t target place

end Listing

end EndpointSurvey
