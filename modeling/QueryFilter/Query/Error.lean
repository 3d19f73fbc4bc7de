import QueryFilter.Json.Printer
import QueryFilter.Operator

/-!
# Errors of compilation

Why a filter does not fit a schema or exceeds a limit. Each error names the field as it was written
in the filter, except when the filter as a whole is nested too deeply.
-/

namespace QueryFilter

/-- What is wrong with a field path. -/
inductive PathDefect
  | targetMissing (name : String)
  | embeddedMissing (name : String)
  | basicHasParts (name : String)
  | associationCompared
  | collectionCompared
  | embeddedCompared
  deriving DecidableEq, Repr

/-- The description of a defect of a path. -/
def PathDefect.text : PathDefect → String
  | targetMissing a => s!"target type of '{a}' is not available"
  | embeddedMissing a => s!"schema of embedded '{a}' is not available"
  | basicHasParts a => s!"'{a}' is a basic attribute and has no sub-attributes"
  | associationCompared =>
    "a to-one association only supports null tests; name one of its attributes"
  | collectionCompared => "a collection cannot be compared; name one of its attributes"
  | embeddedCompared => "an embedded attribute cannot be compared; name one of its attributes"

/-- A reason to refuse a filter. -/
inductive CompileError
  | unknownAttribute (field name type : String)
  | notComparable (field type : String) (operator : SingleOperator)
  | textRequired (field type : String) (operator : SingleOperator)
  | conversion (field type : String) (operand : Json)
  /-- A segment is empty in the remainder `text` of the field. -/
  | emptySegment (field text : String)
  | path (field : String) (defect : PathDefect)
  | tooDeep (depth limit : Nat)
  | tooManyValues (field : String) (count limit : Nat)
  | tooManySegments (field : String) (count limit : Nat)
  deriving DecidableEq, Repr

namespace CompileError

/-- The stable codes. -/
inductive Code
  | unknownAttribute
  | typeNotComparable
  | valueConversion
  | invalidPath
  | limitExceeded
  deriving DecidableEq, Repr

/-- The text of a code. -/
def Code.text : Code → String
  | unknownAttribute => "AERO_FILTER_UNKNOWN_ATTRIBUTE"
  | typeNotComparable => "AERO_FILTER_TYPE_NOT_COMPARABLE"
  | valueConversion => "AERO_FILTER_VALUE_CONVERSION"
  | invalidPath => "AERO_FILTER_INVALID_PATH"
  | limitExceeded => "AERO_FILTER_LIMIT_EXCEEDED"

/-- The code of an error. -/
def code : CompileError → Code
  | unknownAttribute .. => .unknownAttribute
  | notComparable .. | textRequired .. => .typeNotComparable
  | conversion .. => .valueConversion
  | emptySegment .. | path .. => .invalidPath
  | tooDeep .. | tooManyValues .. | tooManySegments .. => .limitExceeded

/-- The field that is at fault. -/
def field? : CompileError → Option String
  | unknownAttribute f .. | notComparable f .. | textRequired f .. | conversion f ..
  | emptySegment f _ | path f _ | tooManyValues f .. | tooManySegments f .. => some f
  | tooDeep .. => none

/-- The type that owns or lacks what is at fault. -/
def typeName? : CompileError → Option String
  | unknownAttribute _ _ t | notComparable _ t _ | textRequired _ t _ | conversion _ t _ => some t
  | _ => none

/-- The message of an error. -/
def message : CompileError → String
  | unknownAttribute _ a t => s!"Unable to locate attribute '{a}' on type '{t}'"
  | notComparable f t op => s!"Operator {op.token} cannot be applied to field '{f}' of type '{t}'"
  | textRequired f t op =>
    s!"Operator {op.token} compares text case-insensitively; field '{f}' has type '{t}'"
  | conversion f t v => s!"Cannot convert {v.text} to '{t}' for field '{f}'"
  | emptySegment _ text => s!"Field '{text}': empty path segment"
  | path f defect => s!"Field '{f}': {defect.text}"
  | tooDeep n limit => s!"filter depth {n} exceeds maximum {limit}"
  | tooManyValues _ n limit => s!"list size {n} exceeds maximum {limit}"
  | tooManySegments _ n limit => s!"path segments {n} exceeds maximum {limit}"

end CompileError

end QueryFilter
