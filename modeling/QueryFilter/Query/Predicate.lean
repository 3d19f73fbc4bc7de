import QueryFilter.Operator
import QueryFilter.Query.JoinPlan
import QueryFilter.Value.Basic

/-!
# Predicates

A predicate is a formula over tests of columns. It knows nothing of a database language. What a
source of columns is stays open: in a query it is the root type or a join of its plan.
-/

namespace QueryFilter

/-- A column: its source and the names that lead to it within the source's row. -/
structure Column (σ : Type := Source) where
  source : σ
  segments : List String
  deriving DecidableEq, Repr

/-- One test of a column. With `ignoreCase` the column is compared in lower case with a value or a
pattern in lower case, and with `castToText` through its text. -/
inductive Test (σ : Type := Source)
  | isNull (column : Column σ)
  | isNotNull (column : Column σ)
  | compare (column : Column σ) (comparison : Comparison) (value : Value) (ignoreCase : Bool)
  | like (column : Column σ) (pattern : String) (ignoreCase castToText : Bool)
  | oneOf (column : Column σ) (values : List Value)
  deriving DecidableEq, Repr

/-- A predicate. An empty conjunction holds and an empty disjunction does not. -/
inductive Predicate (σ : Type := Source)
  | always
  | test (t : Test σ)
  | not (p : Predicate σ)
  | compound (operator : Connective) (children : List (Predicate σ))
  deriving Repr

namespace Predicate

variable {σ : Type}

mutual

/-- The number of tests. -/
def testCount : Predicate σ → Nat
  | always => 0
  | test _ => 1
  | not p => p.testCount
  | compound _ ps => testCountOfAll ps

/-- The number of tests in a list of predicates. -/
def testCountOfAll : List (Predicate σ) → Nat
  | [] => 0
  | p :: ps => p.testCount + testCountOfAll ps

end

/-- The predicate of several: none are always satisfied, one stands alone, more are joined. -/
def conjunction : List (Predicate σ) → Predicate σ
  | [] => always
  | [p] => p
  | ps => compound .and ps

end Predicate

/-- What a query selects: the rows of the root type, or their number. -/
inductive Projection
  | rows
  | count
  deriving DecidableEq, Repr

/-- A query: the joins it needs, its predicate and its projection. -/
structure Query where
  plan : JoinPlan
  predicate : Predicate
  projection : Projection
  deriving Repr

/-- Whether duplicate rows have to be eliminated. -/
def Query.isDistinct (q : Query) : Bool := q.plan.distinct

end QueryFilter
