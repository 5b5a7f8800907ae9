/-
The files that a survey reads and writes, as a value. A place is the list of names from the root down to a file or
directory; a directory exists while something lies below it, and some exist though they are empty. Path texts are
followed name by name, as an operating system follows them.

Main statements: `content?_insert` (a file written is found, the others stay) and `listedBefore_total` (any two paths
are listed in one order or the other).
-/
import EndpointSurvey.Text.Quoted
import EndpointSurvey.Text.Utf8

namespace EndpointSurvey

/-- the names from the root down -/
abbrev Place := List Text

/-- why a path text leads to no file -/
inductive FileFault where
  | missing (path : Text)
  | notDirectory (path : Text)
  | isDirectory (path : Text)
  /-- a name for a new file that takes too many bytes -/
  | nameTooLong (path : Text)
  /-- a path text with a null character in it, which is none -/
  | nullCharacter
  deriving DecidableEq, Repr

def FileFault.message : FileFault → Text
  | missing path => "[Errno 2] No such file or directory: " ++ Text.quoted path
  | notDirectory path => "[Errno 20] Not a directory: " ++ Text.quoted path
  | isDirectory path => "[Errno 21] Is a directory: " ++ Text.quoted path
  | nameTooLong path => "[Errno 36] File name too long: " ++ Text.quoted path
  | nullCharacter => "embedded null byte"

structure FileTree where
  workingDirectory : Place
  /-- further directories that are there though they may be empty -/
  directories : List Place
  files : List (Place × List UInt8)

namespace FileTree

/-! ## Places -/

def content? (t : FileTree) (place : Place) : Option (List UInt8) :=
  (t.files.find? (·.1 == place)).map (·.2)

def holdsFile (t : FileTree) (place : Place) : Bool := (t.content? place).isSome

/-- does one place lie below another? -/
def below (above place : Place) : Bool := above.isPrefixOf place && above.length < place.length

def holdsDirectory (t : FileTree) (place : Place) : Bool :=
  (t.workingDirectory :: t.directories).any place.isPrefixOf || t.files.any fun (file, _) => below place file

/-- the tree without what is at a place or below it -/
def remove (place : Place) (t : FileTree) : FileTree :=
  { t with
    directories := t.directories.filter fun directory => !place.isPrefixOf directory
    files := t.files.filter fun (file, _) => !place.isPrefixOf file }

/-- the tree with a file at a place, in directories that are made where they are missing -/
def insert (place : Place) (bytes : List UInt8) (t : FileTree) : FileTree :=
  { t with files := t.files.filter (·.1 != place) ++ [(place, bytes)] }

theorem content?_insert (t : FileTree) (place other : Place) (bytes : List UInt8) :
    (t.insert place bytes).content? other = if place = other then some bytes else t.content? other := by
  by_cases h : place = other
  · subst h
    have gone : (t.files.filter (·.1 != place)).find? (·.1 == place) = none := by
      rw [List.find?_eq_none]
      intro file found
      simpa using (List.mem_filter.1 found).2
    simp only [content?, insert, List.find?_append, gone]
    simp
  · rw [if_neg h]
    have kept : (t.files.filter (·.1 != place)).find? (·.1 == other) = t.files.find? (·.1 == other) := by
      rw [List.find?_filter]
      congr 1
      funext file
      by_cases ho : file.1 = other
      · simp [ho, Ne.symm h]
      · simp [ho]
    have last : [(place, bytes)].find? (·.1 == other) = none := by simp [h]
    simp [content?, insert, List.find?_append, kept, last]

/-! ## Path texts -/

/-- the name of the directory above -/
def parentName : Text := ['.', '.']

/-- follows names from a place; an empty name or a dot stays in a directory -/
def follow (t : FileTree) (path : Text) (place : Place) : List Text → Except FileFault Place
  | [] => if t.holdsFile place || t.holdsDirectory place then .ok place else .error (.missing path)
  | name :: rest =>
    if !t.holdsDirectory place then
      .error (if t.holdsFile place then .notDirectory path else .missing path)
    else if name.isEmpty || name == ['.'] then t.follow path place rest
    else if name == parentName then t.follow path place.dropLast rest
    else t.follow path (place ++ [name]) rest

/-- the place where the names of a path text start -/
def start (t : FileTree) (path : Text) : Place := if path.head? = some '/' then [] else t.workingDirectory

/-- the place that a path text leads to -/
def locate (t : FileTree) (path : Text) : Except FileFault Place :=
  if path.elem '\x00' then .error .nullCharacter
  else if path.isEmpty then .error (.missing path)
  else t.follow path (t.start path) (Text.splitOn '/' path)

def fileExists (t : FileTree) (path : Text) : Bool :=
  match t.locate path with
  | .ok _ => true
  | .error _ => false

/-- the bytes of the file that a path text leads to -/
def read (t : FileTree) (path : Text) : Except FileFault (List UInt8) := do
  let place ← t.locate path
  match t.content? place with
  | some bytes => pure bytes
  | none => throw (.isDirectory path)

/-- how many bytes a name may take -/
def nameLimit : Nat := 255

/-- the place of a file that is to be written: its directory has to exist -/
def locateNew (t : FileTree) (path : Text) : Except FileFault Place := do
  if path.elem '\x00' then throw .nullCharacter
  if path.isEmpty then throw (.missing path)
  let names := Text.splitOn '/' path
  let name := names.getLast?.getD []
  let directory ← t.follow path (t.start path) names.dropLast
  if !t.holdsDirectory directory then throw (.notDirectory path)
  if name.isEmpty || name == ['.'] || name == parentName || t.holdsDirectory (directory ++ [name]) then
    throw (.isDirectory path)
  if nameLimit < (Utf8.encode name).length then throw (.nameTooLong path)
  pure (directory ++ [name])

/-- the tree after a file has been written, in place of one that was there -/
def write (t : FileTree) (path : Text) (bytes : List UInt8) : Except FileFault FileTree := do
  pure (t.insert (← t.locateNew path) bytes)

/-- the tree after bytes have been added to the end of a file, which is made if it is missing -/
def append (t : FileTree) (path : Text) (bytes : List UInt8) : Except FileFault FileTree := do
  let place ← t.locateNew path
  pure (t.insert place ((t.content? place).getD [] ++ bytes))

/-! ## Walking -/

/-- the order of a walk: first the files of a directory by name, then its directories by name -/
def listedBefore : List Text → List Text → Bool
  | [], _ => true
  | _ :: _, [] => false
  | [a], [b] => Text.le a b
  | [_], _ :: _ :: _ => true
  | _ :: _ :: _, [_] => false
  | a :: c :: as, b :: d :: bs => if a = b then listedBefore (c :: as) (d :: bs) else Text.le a b

/-- the files below a place in the order of a walk, each by the names that lead to it -/
def walk (t : FileTree) (place : Place) : List (List Text) :=
  ((t.files.map (·.1)).filter (below place)).map (·.drop place.length) |>.mergeSort listedBefore

/-- the directories below a place that may be empty, each by the names that lead to it -/
def directoriesBelow (t : FileTree) (place : Place) : List (List Text) :=
  ((t.workingDirectory :: t.directories).filter (below place)).map (·.drop place.length)

theorem le_total (a b : Text) : (Text.le a b || Text.le b a) = true := by
  induction a generalizing b with
  | nil => rfl
  | cons c cs ih =>
    cases b with
    | nil => rfl
    | cons d ds =>
      have step := ih ds
      simp only [Text.le, Bool.or_eq_true, Bool.and_eq_true, decide_eq_true_eq] at step ⊢
      rcases Nat.lt_trichotomy c.toNat d.toNat with h | h | h
      · exact .inl (.inl h)
      · have same : c = d := Char.toNat_inj.1 h
        subst same
        rcases step with s | s
        · exact .inl (.inr ⟨rfl, s⟩)
        · exact .inr (.inr ⟨rfl, s⟩)
      · exact .inr (.inl h)

theorem listedBefore_total (a b : List Text) : (listedBefore a b || listedBefore b a) = true := by
  fun_induction listedBefore a b with
  | case1 => rfl
  | case2 => rfl
  | case3 a b => simpa [listedBefore] using le_total a b
  | case4 => rfl
  | case5 => rfl
  | case6 a c as d bs ih => simpa [listedBefore] using ih
  | case7 a c as b d bs h =>
    have h' : ¬b = a := fun e => h e.symm
    simpa [listedBefore, h'] using le_total a b

end FileTree

end EndpointSurvey
