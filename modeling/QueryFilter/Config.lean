import QueryFilter.FileTree
import QueryFilter.Json.Printer
import QueryFilter.Json.Record
import QueryFilter.Log

/-!
# Configuration

The limits that filters have to keep, and whether filters are logged. Every member has a default; a
limit in use is not zero.
-/

namespace QueryFilter

/-- The limits on filters. -/
structure Config where
  maxDepth : Nat := 32
  maxListValues : Nat := 1000
  maxPathSegments : Nat := 8
  logExpressions : Bool := false
  deriving DecidableEq, Repr

/-- A reason to refuse a configuration. -/
inductive ConfigError
  | unreadable
  | invalidJson
  | zeroLimit (name : String)
  deriving DecidableEq, Repr

/-- The message of an error. -/
def ConfigError.message : ConfigError → String
  | unreadable => "Failed to read config: it is no text file"
  | invalidJson => "Invalid config JSON: the text does not spell a configuration"
  | zeroLimit name => s!"{name} must be > 0"

/-- The stable code of all errors of configurations. -/
def ConfigError.code : String := "AERO_CONFIG_INVALID"

namespace Config

/-- The JSON object of a configuration. -/
def toJson (c : Config) : Json :=
  .object [("max_depth", .int c.maxDepth), ("max_list_values", .int c.maxListValues),
    ("max_path_segments", .int c.maxPathSegments), ("log_expressions", .bool c.logExpressions)]

/-- The text of a configuration. -/
def toText (c : Config) : String := c.toJson.text

/-- The configuration that a draft spells. -/
def ofDraft? (v : Json.Draft) : Option Config := do
  let r ← v.record? ["max_depth", "max_list_values", "max_path_segments", "log_expressions"]
  let default : Config := {}
  return {
    maxDepth := ← r.get "max_depth" Json.Draft.word? default.maxDepth
    maxListValues := ← r.get "max_list_values" Json.Draft.word? default.maxListValues
    maxPathSegments := ← r.get "max_path_segments" Json.Draft.word? default.maxPathSegments
    logExpressions := ← r.get "log_expressions" Json.Draft.bool? default.logExpressions }

/-- The configuration that a JSON value is. -/
def ofJson? (v : Json) : Option Config := ofDraft? (.ofJson v)

/-- The first limit that is zero is an error. -/
def check (c : Config) : Except ConfigError Unit :=
  if c.maxDepth = 0 then .error (.zeroLimit "max_depth")
  else if c.maxListValues = 0 then .error (.zeroLimit "max_list_values")
  else if c.maxPathSegments = 0 then .error (.zeroLimit "max_path_segments")
  else .ok ()

/-- The record of a configuration that was loaded from a path. -/
def record (c : Config) (path : String) : Log.Record :=
  Log.Event.configLoaded.record
    [("max_depth", toString c.maxDepth), ("max_list_values", toString c.maxListValues),
      ("max_path_segments", toString c.maxPathSegments), ("path", path)]

/-- The configuration in a file, if there is one, and what is logged. -/
def ofFile (path : String) (file : Option FileTree.Node) :
    Except ConfigError Config × List Log.Record :=
  match file.bind FileTree.Node.text? with
  | none => (.error .unreadable, [])
  | some text =>
    match Json.Draft.read? text >>= ofDraft? with
    | none => (.error .invalidJson, [])
    | some c =>
      match c.check with
      | .error e => (.error e, [])
      | .ok () => (.ok c, [c.record path])

end Config

end QueryFilter
