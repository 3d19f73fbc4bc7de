import QueryFilter.Json.Printer
import QueryFilter.Operator

/-!
# Errors of expressions and documents

Why a filter cannot be built or decoded. Each cause has a message, a stable code and, where one is
at fault, a field.
-/

namespace QueryFilter

/-- A reason to refuse an expression or a filter document. -/
inductive ExpressionError
  /-- A membership operator compares with a list, not with one value. -/
  | needsList (field : String) (operator : Membership)
  /-- A connective compares nothing. -/
  | structural (field : String) (operator : Connective)
  | nullOperand (field : String) (operator : SingleOperator)
  | compositeOperand (field : String) (operator : SingleOperator)
  | takesNoList (field : String) (operator : Operator)
  | noValues (field : String) (operator : Membership)
  | compositeElement (field : String) (element : Json)
  | needsArray (field : String) (operator : Membership) (operand : Json)
  | unknownOperator (token : String) (field : Option String)
  | notDocument (value : Json)
  | invalidJson
  | connectiveNeedsArray (key : String)
  | elementNotDocument (key : String) (element : Json)
  | operatorCount (field : String) (count : Nat)
  | operatorNeedsArray (field : String) (operator : Membership)
  deriving DecidableEq, Repr

namespace ExpressionError

/-- The stable codes. -/
inductive Code
  | invalidOperator
  | emptyValues
  | invalidValue
  | unknownOperator
  | malformedDocument
  deriving DecidableEq, Repr

/-- The text of a code. -/
def Code.text : Code → String
  | invalidOperator => "AERO_FILTER_INVALID_OPERATOR"
  | emptyValues => "AERO_FILTER_EMPTY_VALUES"
  | invalidValue => "AERO_FILTER_INVALID_VALUE"
  | unknownOperator => "AERO_FILTER_UNKNOWN_OPERATOR"
  | malformedDocument => "AERO_FILTER_MALFORMED_DOCUMENT"

/-- The code of an error. -/
def code : ExpressionError → Code
  | needsList .. | structural .. | takesNoList .. => .invalidOperator
  | noValues .. => .emptyValues
  | nullOperand .. | compositeOperand .. | compositeElement .. | needsArray .. => .invalidValue
  | unknownOperator .. => .unknownOperator
  | notDocument .. | invalidJson | connectiveNeedsArray .. | elementNotDocument ..
  | operatorCount .. | operatorNeedsArray .. => .malformedDocument

/-- The field that is at fault. -/
def field : ExpressionError → Option String
  | needsList f _ | structural f _ | nullOperand f _ | compositeOperand f _ | takesNoList f _
  | noValues f _ | compositeElement f _ | needsArray f _ _ | operatorNeedsArray f _ => some f
  | unknownOperator _ f => f
  | notDocument _ | invalidJson | connectiveNeedsArray _ | elementNotDocument ..
  | operatorCount .. => none

/-- The message of an error. -/
def message : ExpressionError → String
  | needsList f op => s!"Field '{f}': operator {op.token} accepts a list of values"
  | structural f op =>
    s!"Field '{f}': operator {op.token} is structural and cannot compare a value"
  | nullOperand f op => s!"Field '{f}': operator {op.token} does not accept null"
  | compositeOperand f op => s!"Field '{f}': operator {op.token} requires a scalar operand"
  | takesNoList f op => s!"Field '{f}': operator {op.token} doesn't accept a list of values"
  | noValues f op => s!"Field '{f}': operator {op.token} requires at least one value"
  | compositeElement f v => s!"Field '{f}': list operand {v.text} is not a scalar"
  | needsArray f op v =>
    s!"Field '{f}': operator {op.token} expects an array operand, got {v.text}"
  | unknownOperator token _ => s!"Unknown operator '{token}'"
  | notDocument v => s!"filter document must be an object, got {v.text}"
  | invalidJson => "invalid filter JSON: the text does not spell a value"
  | connectiveNeedsArray key => s!"'{key}' expects an array of documents"
  | elementNotDocument key v => s!"'{key}' element {v.text} is not a document"
  | operatorCount f n => s!"field '{f}' expects exactly one operator, found {n}"
  | operatorNeedsArray f op => s!"field '{f}': operator {op.token} expects an array operand"

end ExpressionError

/-- The operator that a token spells, or the error that names the token. -/
def Operator.parse (token : String) (field : Option String) : Except ExpressionError Operator :=
  match Operator.parse? token with
  | some op => .ok op
  | none => .error (.unknownOperator token field)

end QueryFilter
