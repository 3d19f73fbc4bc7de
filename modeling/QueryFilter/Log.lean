import QueryFilter.Text.Digits
import QueryFilter.Text.Sorting

/-!
# Log lines

A log record is an event with a severity and named texts; its line is a JSON object with the event
and the severity first and the fields in the order of their names. Lines of failures go to the
error stream, all others to the output stream, and a minimum severity decides which are written.
-/

namespace QueryFilter.Log

/-- How serious a record is. -/
inductive Severity
  | trace
  | info
  | warn
  | error
  | fatal
  deriving DecidableEq, Repr

namespace Severity

/-- The severities from the least serious one on. -/
def all : List Severity := [trace, info, warn, error, fatal]

/-- The name of a severity. -/
def name : Severity → String
  | trace => "TRACE"
  | info => "INFO"
  | warn => "WARN"
  | error => "ERROR"
  | fatal => "FATAL"

/-- The place of a severity among all. -/
def rank : Severity → Nat
  | trace => 0
  | info => 1
  | warn => 2
  | error => 3
  | fatal => 4

/-- The severity with a name. -/
def ofName? (name : String) : Option Severity := all.find? (·.name == name)

/-- Whether records of a severity are written under a minimum. -/
def enabled (least s : Severity) : Bool := least.rank ≤ s.rank

/-- Whether lines of a severity belong to the error stream. -/
def isFailure (s : Severity) : Bool := error.rank ≤ s.rank

end Severity

/-- The events that the library reports. -/
inductive Event
  | configLoaded
  | schemasLoaded
  | filterDecoded
  | filterDocument
  | compileBegin
  | compileComplete
  | compileRejected
  deriving DecidableEq, Repr

namespace Event

/-- Every event. -/
def all : List Event :=
  [configLoaded, schemasLoaded, filterDecoded, filterDocument, compileBegin, compileComplete,
    compileRejected]

/-- The name of an event. -/
def name : Event → String
  | configLoaded => "CONFIG_LOADED"
  | schemasLoaded => "SCHEMAS_LOADED"
  | filterDecoded => "FILTER_DECODED"
  | filterDocument => "FILTER_DOCUMENT"
  | compileBegin => "FILTER_COMPILE_BEGIN"
  | compileComplete => "FILTER_COMPILE_COMPLETE"
  | compileRejected => "FILTER_COMPILE_REJECTED"

/-- The severity of an event. -/
def severity : Event → Severity
  | configLoaded | schemasLoaded => .info
  | compileRejected => .warn
  | filterDecoded | filterDocument | compileBegin | compileComplete => .trace

/-- The event with a name. -/
def ofName? (name : String) : Option Event := all.find? (·.name == name)

end Event

/-- A record of something that happened. -/
structure Record where
  severity : Severity
  event : String
  fields : List (String × String)
  deriving DecidableEq, Repr

/-- The record of an event of the library, at the event's own severity. -/
def Event.record (e : Event) (fields : List (String × String)) : Record :=
  ⟨e.severity, e.name, fields⟩

/-! ### Lines -/

/-- Whether a character is a control character: below U+0020 or from U+007F to U+009F. -/
def isControl (c : Char) : Bool := c.toNat < 0x20 || (0x7F ≤ c.toNat && c.toNat < 0xA0)

/-- A character as it stands between quotes in a line. -/
def escapeChar (c : Char) : List Char :=
  if c = '"' then ['\\', '"']
  else if c = '\\' then ['\\', '\\']
  else if c = '\n' then ['\\', 'n']
  else if c = '\r' then ['\\', 'r']
  else if c = '\t' then ['\\', 't']
  else if isControl c then
    let n := c.toNat
    ['\\', 'u', Text.hexDigit (n / 4096), Text.hexDigit (n / 256), Text.hexDigit (n / 16),
      Text.hexDigit n]
  else [c]

/-- A text between quotes. -/
def quote (s : String) : List Char := '"' :: s.toList.flatMap escapeChar ++ ['"']

/-- A member of the object that a line is. -/
def member (key value : String) : List Char := quote key ++ ':' :: quote value

/-- The members of the line of a record. -/
def Record.members (r : Record) : List (String × String) :=
  ("event", r.event) :: ("severity", r.severity.name) :: Text.sortByKey (·.1) r.fields

/-- The line of a record, with its line end. -/
def Record.line (r : Record) : List Char :=
  '\x7b' :: [','].intercalate (r.members.map fun (k, v) => member k v) ++ ['\x7d', '\n']

/-! ### Streams -/

/-- The texts of two streams. -/
structure Streams where
  output : String
  error : String
  deriving DecidableEq, Repr

/-- The lines of records that go to a stream. -/
def linesOf (records : List Record) : String :=
  String.ofList (records.flatMap Record.line)

/-- What is written of some records under a minimum severity. -/
def streams (least : Severity) (records : List Record) : Streams :=
  let written := records.filter fun r => least.enabled r.severity
  ⟨linesOf (written.filter fun r => !r.severity.isFailure),
    linesOf (written.filter fun r => r.severity.isFailure)⟩

end QueryFilter.Log
