/-
Resolving the text of a type against a catalog: wrappers are looked through, arrays and known generic types become
collections and dictionaries, names become scalars, files or declared types, and all else stays untyped.

Main statement: `resolve_descriptor_mem` (a resolved type's declaration comes from the catalog or its fallbacks).
-/
import EndpointSurvey.Catalog.Basic
import EndpointSurvey.Catalog.TypeForm

namespace EndpointSurvey

/-- what kind of value stands for a primitive type -/
inductive Scalar where
  | string
  | character
  | boolean
  | integer
  | number
  | dateTime
  | date
  | time
  | duration
  | guid
  | url
  | binary
  deriving DecidableEq, Repr

namespace Scalar

def all : List Scalar :=
  [.string, .character, .boolean, .integer, .number, .dateTime, .date, .time, .duration, .guid, .url, .binary]

def name : Scalar → Text
  | string => "string"
  | character => "char"
  | boolean => "boolean"
  | integer => "integer"
  | number => "number"
  | dateTime => "datetime"
  | date => "date"
  | time => "time"
  | duration => "duration"
  | guid => "guid"
  | url => "url"
  | binary => "binary"

def ofName? (t : Text) : Option Scalar := all.find? (·.name == t)

/-- the primitive types by name in small letters -/
def typeNames : List (Text × Scalar) :=
  [("string", .string), ("char", .character), ("bool", .boolean), ("boolean", .boolean), ("int", .integer),
    ("int16", .integer), ("int32", .integer), ("int64", .integer), ("uint", .integer), ("uint16", .integer),
    ("uint32", .integer), ("uint64", .integer), ("long", .integer), ("ulong", .integer), ("short", .integer),
    ("ushort", .integer), ("byte", .integer), ("sbyte", .integer), ("float", .number), ("single", .number),
    ("double", .number), ("decimal", .number), ("datetime", .dateTime), ("datetimeoffset", .dateTime),
    ("dateonly", .date), ("timeonly", .time), ("timespan", .duration), ("guid", .guid), ("uri", .url)]

end Scalar

/-- the outcome of resolving a type; each carries the name it goes by -/
inductive ResolvedType where
  | primitive (name : Text) (nullable : Bool) (scalar : Scalar)
  | object (name : Text) (nullable : Bool) (descriptor : TypeDescriptor) (arguments : List Text)
  | enumeration (name : Text) (nullable : Bool) (descriptor : TypeDescriptor)
  | collection (name : Text) (nullable : Bool) (element : ResolvedType)
  | dictionary (name : Text) (nullable : Bool) (element : ResolvedType) (arguments : List Text)
  | file (name : Text) (nullable : Bool)
  /-- a value of no known form; `known` for the types that are meant to be so -/
  | untyped (name : Text) (nullable : Bool) (arguments : List Text) (known : Bool)
  deriving DecidableEq, Repr

namespace ResolvedType

def kindName : ResolvedType → Text
  | primitive .. => "primitive"
  | object .. => "object"
  | enumeration .. => "enum"
  | collection .. => "collection"
  | dictionary .. => "dictionary"
  | file .. => "file"
  | untyped .. => "opaque"

def name : ResolvedType → Text
  | primitive name .. | object name .. | enumeration name .. | collection name .. | dictionary name .. | file name ..
  | untyped name .. => name

def nullable : ResolvedType → Bool
  | primitive _ nullable _ | object _ nullable .. | enumeration _ nullable _ | collection _ nullable _
  | dictionary _ nullable .. | file _ nullable | untyped _ nullable .. => nullable

def scalar? : ResolvedType → Option Scalar
  | primitive _ _ scalar => some scalar
  | _ => none

def element? : ResolvedType → Option ResolvedType
  | collection _ _ element | dictionary _ _ element _ => some element
  | _ => none

def descriptor? : ResolvedType → Option TypeDescriptor
  | object _ _ descriptor _ | enumeration _ _ descriptor => some descriptor
  | _ => none

def arguments : ResolvedType → List Text
  | object _ _ _ arguments | dictionary _ _ _ arguments | untyped _ _ arguments _ => arguments
  | _ => []

def known : ResolvedType → Bool
  | untyped _ _ _ known => known
  | _ => true

/-- the type made nullable -/
def asNullable : ResolvedType → ResolvedType
  | primitive name _ scalar => primitive name true scalar
  | object name _ descriptor arguments => object name true descriptor arguments
  | enumeration name _ descriptor => enumeration name true descriptor
  | collection name _ element => collection name true element
  | dictionary name _ element arguments => dictionary name true element arguments
  | file name _ => file name true
  | untyped name _ arguments known => untyped name true arguments known

/-- scalars, enumerations and collections of them bind from a query string -/
def isSimple : ResolvedType → Bool
  | primitive .. | enumeration .. => true
  | collection _ _ element => element.isSimple
  | _ => false

def isFile : ResolvedType → Bool
  | file .. => true
  | collection _ _ element => element.isFile
  | _ => false

def isCollection : ResolvedType → Bool
  | collection .. => true
  | _ => false

theorem asNullable_descriptor? (r : ResolvedType) : r.asNullable.descriptor? = r.descriptor? := by cases r <;> rfl

end ResolvedType

namespace Catalog

/-! ## Names with a meaning of their own, in small letters -/

def wrapperNames : List Text := ["task", "valuetask", "actionresult", "nullable"]

def collectionNames : List Text :=
  ["list", "ilist", "ienumerable", "icollection", "ireadonlylist", "ireadonlycollection", "hashset", "iset",
    "collection", "iasyncenumerable", "immutablearray", "immutablelist"]

def dictionaryNames : List Text :=
  ["dictionary", "idictionary", "ireadonlydictionary", "concurrentdictionary", "sorteddictionary"]

def fileNames : List Text := ["iformfile", "iformfilecollection", "stream", "filestream", "memorystream"]

/-- types that say nothing about their value -/
def untypedNames : List Text :=
  ["object", "dynamic", "jsonelement", "jsonnode", "jsondocument", "jobject", "jtoken", "iactionresult", "actionresult",
    "ihttpactionresult", "httpresponsemessage", "iresult", "void"]

/-! ## Resolution -/

/-- a plain name -/
def resolveName (c : Catalog) (name : Text) (nullable : Bool) : ResolvedType :=
  let lowered := name.lower
  match Entries.lookup? lowered Scalar.typeNames with
  | some scalar => .primitive name nullable scalar
  | none =>
    if fileNames.contains lowered then .file name nullable
    else if untypedNames.contains lowered then .untyped name nullable [] true
    else match c.get? name with
      | none => .untyped name nullable [] false
      | some d => if d.kind = .enumType then .enumeration name nullable d else .object name nullable d []

/-- a declared generic type -/
def resolveGeneric (c : Catalog) (name : Text) (nullable : Bool) (arguments : List Text) : ResolvedType :=
  match c.get? name with
  | some d => .object name nullable d arguments
  | none => .untyped name nullable arguments false

/-- resolves a type of which no more than a number of layers are looked into -/
def resolveWithin (c : Catalog) : Nat → Text → ResolvedType
  | 0, t =>
    let read := TypeText.ofText t
    .untyped (if read.core.isEmpty then "object" else read.core) read.nullable [] false
  | layers + 1, t =>
    let read := TypeText.ofText t
    match read.form with
    | .nothing => .untyped "object" read.nullable [] false
    | .array element =>
      if (unqualified element).lower = ("byte" : Text) then .primitive "byte[]" read.nullable .binary
      else .collection read.core read.nullable (c.resolveWithin layers element)
    | .generic base arguments =>
      let name := unqualified base
      let lowered := name.lower
      match arguments with
      | [] => c.resolveGeneric name read.nullable []
      | first :: rest =>
        if wrapperNames.contains lowered then
          let inner := c.resolveWithin layers first
          if lowered = ("nullable" : Text) then inner.asNullable else inner
        else if collectionNames.contains lowered then
          .collection read.core read.nullable (c.resolveWithin layers first)
        else if dictionaryNames.contains lowered then
          .dictionary read.core read.nullable (c.resolveWithin layers (rest.getLastD first)) (first :: rest)
        else c.resolveGeneric name read.nullable (first :: rest)
    | .plain => c.resolveName (unqualified read.core) read.nullable

/-- how many layers of a type are looked into -/
def layerLimit : Nat := 13

/-- resolves the text of a type -/
def resolve (c : Catalog) (t : Text) : ResolvedType := c.resolveWithin layerLimit t

theorem resolveName_descriptor_mem {c : Catalog} {name : Text} {nullable : Bool} {d : TypeDescriptor}
    (h : (c.resolveName name nullable).descriptor? = some d) : d ∈ c.reachable := by
  unfold resolveName at h
  simp only at h
  split at h
  · cases h
  · split at h
    · cases h
    · split at h
      · cases h
      · split at h
        · cases h
        · next found hf => split at h <;> (cases h; exact mem_of_get? hf)

theorem resolveGeneric_descriptor_mem {c : Catalog} {name : Text} {nullable : Bool} {arguments : List Text}
    {d : TypeDescriptor} (h : (c.resolveGeneric name nullable arguments).descriptor? = some d) : d ∈ c.reachable := by
  unfold resolveGeneric at h
  split at h
  · next found hf => cases h; exact mem_of_get? hf
  · cases h

theorem resolveWithin_descriptor_mem {c : Catalog} {layers : Nat} {t : Text} {d : TypeDescriptor}
    (h : (c.resolveWithin layers t).descriptor? = some d) : d ∈ c.reachable := by
  induction layers generalizing t with
  | zero => cases h
  | succ layers ih =>
    unfold resolveWithin at h
    simp only at h
    split at h
    · cases h
    · split at h <;> cases h
    · split at h
      · exact resolveGeneric_descriptor_mem h
      · split at h
        · split at h
          · rw [ResolvedType.asNullable_descriptor?] at h
            exact ih h
          · exact ih h
        · split at h
          · cases h
          · split at h
            · cases h
            · exact resolveGeneric_descriptor_mem h
    · exact resolveName_descriptor_mem h

theorem resolve_descriptor_mem {c : Catalog} {t : Text} {d : TypeDescriptor}
    (h : (c.resolve t).descriptor? = some d) : d ∈ c.reachable := resolveWithin_descriptor_mem h

end Catalog

end EndpointSurvey
