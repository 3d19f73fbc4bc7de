import QueryFilter.Config
import QueryFilter.Expression.Error
import QueryFilter.Query.Error
import QueryFilter.Schema.Error

/-!
# Errors

The errors of all parts of the library in one type, with what a caller may ask of any of them. A
rejection concerns one request; a fatal error keeps the program from starting.
-/

namespace QueryFilter

/-- How far an error reaches. -/
inductive ErrorSeverity
  | reject
  | fatal
  deriving DecidableEq, Repr

/-- The name of a severity. -/
def ErrorSeverity.name : ErrorSeverity → String
  | reject => "REJECT"
  | fatal => "FATAL"

/-- Any error on the way from a filter to a query. -/
inductive Error
  | expression (e : ExpressionError)
  | schema (e : SchemaError)
  | compile (e : CompileError)
  | config (e : ConfigError)
  deriving DecidableEq, Repr

namespace Error

/-- The stable code. -/
def code : Error → String
  | expression e => e.code.text
  | schema e => e.code.text
  | compile e => e.code.text
  | config _ => ConfigError.code

/-- How far the error reaches. -/
def severity : Error → ErrorSeverity
  | expression _ | compile _ => .reject
  | schema e => if e.isFatal then .fatal else .reject
  | config _ => .fatal

/-- The message without severity and code. -/
def message : Error → String
  | expression e => e.message
  | schema e => e.message
  | compile e => e.message
  | config e => e.message

/-- The full text. -/
def text (e : Error) : String := s!"[{e.severity.name}] {e.code}: {e.message}"

/-- The field that is at fault. -/
def field? : Error → Option String
  | expression e => e.field
  | compile e => e.field?
  | schema _ | config _ => none

/-- The type that is at fault. -/
def typeName? : Error → Option String
  | compile e => e.typeName?
  | schema e => e.typeName?
  | expression _ | config _ => none

/-- Whether the filter is at fault rather than the setup. -/
def isClientError : Error → Bool
  | expression _ | compile _ => true
  | schema _ | config _ => false

end Error

end QueryFilter
