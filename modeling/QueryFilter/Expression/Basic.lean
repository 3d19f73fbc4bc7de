import QueryFilter.Expression.Error

/-!
# Filter expressions

A tree of conditions on fields, which says nothing about a schema. Its constructors refuse an
operand that does not suit the operator; a conjunction or a disjunction takes any number of
children and never merges with them.
-/

namespace QueryFilter

/-- What a field is compared with. -/
inductive Condition
  | single (operator : SingleOperator) (value : Json.Scalar)
  | list (operator : Membership) (values : List Json.Scalar)
  deriving DecidableEq, Repr

/-- A filter expression. The field of a leaf is a path, which may carry join markers. -/
inductive Expression
  | leaf (field : String) (condition : Condition)
  | compound (operator : Connective) (children : List Expression)
  deriving Repr

/-- The operator of a condition. -/
def Condition.operator : Condition → Operator
  | .single op _ => .single op
  | .list op _ => .list op

/-- The operand of a condition. -/
def Condition.operand : Condition → Json
  | .single _ v => .scalar v
  | .list _ vs => .array (vs.map .scalar)

namespace Expression

instance : Inhabited Expression := ⟨.compound .and []⟩

mutual

/-- Equality of expressions is decidable. -/
def decEq : (a b : Expression) → Decidable (a = b)
  | .leaf f c, .leaf g d => decidable_of_iff (f = g ∧ c = d) (by simp)
  | .compound op as, .compound op' bs =>
    have := decEqChildren as bs
    decidable_of_iff (op = op' ∧ as = bs) (by simp)
  | .leaf _ _, .compound _ _ => isFalse (by simp)
  | .compound _ _, .leaf _ _ => isFalse (by simp)

/-- Equality of lists of expressions is decidable. -/
def decEqChildren : (as bs : List Expression) → Decidable (as = bs)
  | [], [] => isTrue rfl
  | [], _ :: _ => isFalse (by simp)
  | _ :: _, [] => isFalse (by simp)
  | a :: as, b :: bs =>
    have := decEq a b
    have := decEqChildren as bs
    decidable_of_iff (a = b ∧ as = bs) (by simp)

end

instance : DecidableEq Expression := decEq

/-! ### Constructors -/

/-- A leaf that compares a field with one scalar, which is null only for a null test. -/
def single (field : String) (op : Operator) (value : Json) : Except ExpressionError Expression :=
  match op with
  | .list op => .error (.needsList field op)
  | .structural op => .error (.structural field op)
  | .single op =>
    match value with
    | .scalar v =>
      if v = .null ∧ ¬op.acceptsNull then .error (.nullOperand field op)
      else .ok (.leaf field (.single op v))
    | _ => .error (.compositeOperand field op)

/-- The scalars of a list of operands. -/
def scalars (field : String) : List Json → Except ExpressionError (List Json.Scalar)
  | [] => .ok []
  | .scalar v :: vs => (scalars field vs).map (v :: ·)
  | v :: _ => .error (.compositeElement field v)

/-- A leaf that compares a field with a list of scalars, which is not empty. -/
def list (field : String) (op : Operator) (values : List Json) :
    Except ExpressionError Expression :=
  match op with
  | .list op =>
    if values.isEmpty then .error (.noValues field op)
    else (scalars field values).map fun vs => .leaf field (.list op vs)
  | op => .error (.takesNoList field op)

/-- A leaf with an operand of the kind that the operator takes. -/
def of (field : String) (op : Operator) (operand : Json) : Except ExpressionError Expression :=
  match op, operand with
  | .list op, .array values => list field (.list op) values
  | .list op, v => .error (.needsArray field op v)
  | op, v => single field op v

/-- The conjunction of two expressions. -/
def and (a b : Expression) : Expression := .compound .and [a, b]

/-- The disjunction of two expressions. -/
def or (a b : Expression) : Expression := .compound .or [a, b]

/-- The conjunction of a list of expressions. -/
def allOf (es : List Expression) : Expression := .compound .and es

/-- The disjunction of a list of expressions. -/
def anyOf (es : List Expression) : Expression := .compound .or es

/-! ### Parts -/

/-- The field of a leaf. -/
def field? : Expression → Option String
  | .leaf f _ => some f
  | .compound _ _ => none

/-- The operator of a node. -/
def operator : Expression → Operator
  | .leaf _ c => c.operator
  | .compound op _ => .structural op

/-- The children of a compound node. -/
def children : Expression → List Expression
  | .leaf _ _ => []
  | .compound _ es => es

mutual

/-- The nesting depth; a leaf has depth one. -/
def depth : Expression → Nat
  | .leaf _ _ => 1
  | .compound _ es => 1 + depthOfAll es

/-- The largest depth in a list; zero for the empty one. -/
def depthOfAll : List Expression → Nat
  | [] => 0
  | e :: es => max (depth e) (depthOfAll es)

end

mutual

/-- The leaves of an expression from left to right. -/
def leaves : Expression → List (String × Condition)
  | .leaf f c => [(f, c)]
  | .compound _ es => leavesOfAll es

/-- The leaves of a list of expressions from left to right. -/
def leavesOfAll : List Expression → List (String × Condition)
  | [] => []
  | e :: es => leaves e ++ leavesOfAll es

end

/-! ### Text -/

/-- The word between the children of a compound node. -/
def joiner : Connective → String
  | .and => " AND "
  | .or => " OR "

/-- The text of a leaf. -/
def leafText (field : String) : Condition → String
  | .single op v => field ++ " " ++ op.token ++ " " ++ v.text
  | .list op vs =>
    field ++ " " ++ op.token ++ " [" ++ String.intercalate ", " (vs.map Json.Scalar.text) ++ "]"

mutual

/-- The text of an expression. -/
def toText : Expression → String
  | .leaf f c => leafText f c
  | .compound op es => "(" ++ String.intercalate (joiner op) (textsOfAll es) ++ ")"

/-- The texts of a list of expressions. -/
def textsOfAll : List Expression → List String
  | [] => []
  | e :: es => toText e :: textsOfAll es

end

end Expression

end QueryFilter
