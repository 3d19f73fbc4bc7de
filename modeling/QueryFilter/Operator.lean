/-!
# Operators

The tokens that may stand in a filter document. A single-valued operator compares a column with
one scalar, a membership operator with a list of them, and a connective joins whole filters.
-/

namespace QueryFilter

/-- A comparison of two values. -/
inductive Comparison
  | equal
  | notEqual
  | greater
  | greaterOrEqual
  | less
  | lessOrEqual
  deriving DecidableEq, Repr

/-- Where a text has to occur in another one. -/
inductive Anchor
  | start
  | finish
  | anywhere
  deriving DecidableEq, Repr

/-- An operator with one operand. -/
inductive SingleOperator
  | compare (comparison : Comparison)
  | equalIgnoringCase
  | occurs (anchor : Anchor) (ignoreCase : Bool)
  deriving DecidableEq, Repr

/-- An operator with a list of operands. -/
inductive Membership
  | oneOf
  | noneOf
  deriving DecidableEq, Repr

/-- An operator between filters. -/
inductive Connective
  | and
  | or
  deriving DecidableEq, Repr

/-- Any operator. -/
inductive Operator
  | single (operator : SingleOperator)
  | list (operator : Membership)
  | structural (operator : Connective)
  deriving DecidableEq, Repr

/-- The token of a comparison. -/
def Comparison.token : Comparison → String
  | .equal => "$eq"
  | .notEqual => "$ne"
  | .greater => "$gt"
  | .greaterOrEqual => "$gte"
  | .less => "$lt"
  | .lessOrEqual => "$lte"

/-- Whether the comparison needs an order. -/
def Comparison.isOrdering : Comparison → Bool
  | .equal | .notEqual => false
  | _ => true

/-- The token of a single-valued operator. -/
def SingleOperator.token : SingleOperator → String
  | .compare c => c.token
  | .equalIgnoringCase => "$ieq"
  | .occurs .start false => "$start"
  | .occurs .finish false => "$end"
  | .occurs .anywhere false => "$contains"
  | .occurs .start true => "$istart"
  | .occurs .finish true => "$iend"
  | .occurs .anywhere true => "$icontains"

/-- Whether a null operand has a meaning: it does for the two null tests. -/
def SingleOperator.acceptsNull : SingleOperator → Bool
  | .compare .equal | .compare .notEqual => true
  | _ => false

/-- The token of a membership operator. -/
def Membership.token : Membership → String
  | .oneOf => "$in"
  | .noneOf => "$nin"

/-- The token of a connective. -/
def Connective.token : Connective → String
  | .and => "$and"
  | .or => "$or"

namespace Operator

/-- The token of an operator. -/
def token : Operator → String
  | .single op => op.token
  | .list op => op.token
  | .structural op => op.token

/-- Whether the operator takes a list of values. -/
def isList : Operator → Bool
  | .list _ => true
  | _ => false

/-- Whether the operator joins filters. -/
def isStructural : Operator → Bool
  | .structural _ => true
  | _ => false

/-- Whether a null operand has a meaning. -/
def acceptsNull : Operator → Bool
  | .single op => op.acceptsNull
  | _ => false

/-- Every operator. -/
def all : List Operator := [
  .single (.compare .equal), .single (.compare .notEqual), .single .equalIgnoringCase,
  .single (.compare .greater), .single (.compare .greaterOrEqual), .single (.compare .less),
  .single (.compare .lessOrEqual), .single (.occurs .start false),
  .single (.occurs .finish false), .single (.occurs .anywhere false),
  .single (.occurs .start true), .single (.occurs .finish true), .single (.occurs .anywhere true),
  .list .oneOf, .list .noneOf, .structural .and, .structural .or]

theorem mem_all (op : Operator) : op ∈ all := by
  rcases op with (c | _ | ⟨a, b⟩) | m | s
  · cases c <;> decide
  · decide
  · cases a <;> cases b <;> decide
  · cases m <;> decide
  · cases s <;> decide

/-- The operator with exactly this token. -/
def ofToken? (token : String) : Option Operator := all.find? (·.token == token)

theorem ofToken?_token (op : Operator) : ofToken? op.token = some op := by
  rcases op with (c | _ | ⟨a, b⟩) | m | s
  · cases c <;> decide
  · decide
  · cases a <;> cases b <;> decide
  · cases m <;> decide
  · cases s <;> decide

end Operator

/-- Whether two texts agree when the case of ASCII letters is ignored. -/
def agreeIgnoringCase (a b : String) : Bool :=
  a.toList.map Char.toLower == b.toList.map Char.toLower

/-- The connective that a key spells in any case. -/
def Connective.ofKey? (key : String) : Option Connective :=
  if agreeIgnoringCase key Connective.and.token then some .and
  else if agreeIgnoringCase key Connective.or.token then some .or
  else none

/-- The operator that a token spells: a connective in any case, any other exactly. -/
def Operator.parse? (token : String) : Option Operator :=
  match Connective.ofKey? token with
  | some op => some (.structural op)
  | none => Operator.ofToken? token

end QueryFilter
