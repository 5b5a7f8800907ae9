/-
JSON values in files. A file whose name marks it as lenient is read a piece at a time, may start with a byte order mark,
and may be blank; then it stands for null.
-/
import EndpointSurvey.Json.Parser
import EndpointSurvey.Text.Malformed

namespace EndpointSurvey.Json

/-- is the file of a kind that stands for nothing when it is blank? -/
def lenientFile (path : Text) : Bool := Text.endsWith ".yaml" path || Text.endsWith ".yml" path

/-- the text of a file's bytes -/
def fileText? (path : Text) (bytes : List UInt8) : Except Utf8.Fault Text :=
  if lenientFile path then Utf8.ofPieces? bytes else Utf8.ofBytes? bytes

/-- a space or a line end -/
def emptyChar (c : Char) : Bool :=
  c == ' ' || c == '\n' || c == '\r' || c == '\x85' || c == '\u2028' || c == '\u2029'

/-- the content of a lenient file after its byte order mark -/
def afterMark : Text → Text
  | '\ufeff' :: rest => rest
  | content => content

/-- the value that a file's content writes -/
def ofFile? (path content : Text) : Option Json :=
  if !lenientFile path then parse? content
  else if (afterMark content).all emptyChar then some .null
  else parse? (afterMark content)

end EndpointSurvey.Json
