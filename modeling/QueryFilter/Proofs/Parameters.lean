import QueryFilter.Proofs.Tokens

/-!
# The values of a query

A query is run with the values that its predicate compares with, from left to right.

* `Predicate.values`: the values of the tests of a predicate;
* `Sql.values_tokens`: they are those of its tokens;
* `Sql.values_eq`: and those that the query is run with.
-/

namespace QueryFilter

variable {σ : Type}

/-- The values that a test compares with. -/
def Test.values : Test σ → List Value
  | compare _ _ v _ => [v]
  | oneOf _ vs => vs
  | isNull _ | isNotNull _ | like _ _ _ _ => []

/-- The values that a predicate compares with, from left to right. -/
def Predicate.values (p : Predicate σ) : List Value := p.tests.flatMap Test.values

namespace Sql

/-- The values of a token. -/
def Token.values : Token → List Value
  | .atom (.test t) => t.values
  | .atom (.noneOf _ vs) => vs
  | _ => []

theorem parameters_placeholders (vs : List Value) : parameters (placeholders vs) = vs := by
  induction vs using placeholders.induct with
  | case1 | case2 v => rfl
  | case3 v vs hne ih => simpa [placeholders, parameters] using ih

theorem values_eq_flatMap_tests (t : Token) : t.values = t.tests.flatMap Test.values := by
  match t with
  | .atom (.test _) | .atom (.noneOf _ _) => exact (List.flatMap_singleton ..).symm
  | .atom (.constant _) | .not | .connective _ | .opening | .closing => rfl

/-- The tokens of a predicate have its values. -/
theorem values_tokens (p : Predicate) : (tokens p).flatMap Token.values = p.values := by
  rw [Predicate.values, ← tests_tokens, List.flatMap_assoc]
  exact List.flatMap_congr fun t _ => values_eq_flatMap_tests t

/-! ### Parameters -/

theorem parameters_list (vs : List Value) (s : String) :
    parameters (placeholders vs ++ [.plain s]) = vs := by
  rw [parameters_append, parameters_placeholders]
  exact List.append_nil vs

theorem parameters_token (t : Token) : parameters t.pieces = t.values := by
  match t with
  | .atom (.test t) =>
    cases t with
    | oneOf c vs => exact parameters_list vs _
    | isNull | isNotNull | compare | like => rfl
  | .atom (.noneOf c vs) => exact parameters_list vs _
  | .atom (.constant true) | .atom (.constant false) | .not | .connective .and | .connective .or
  | .opening | .closing => rfl

theorem parameters_flatMap {f : Token → List Piece} (h : ∀ t, parameters (f t) = t.values)
    (ts : List Token) : parameters (ts.flatMap f) = ts.flatMap Token.values := by
  induction ts with
  | nil => rfl
  | cons t ts ih => rw [List.flatMap_cons, List.flatMap_cons, parameters_append, h, ih]

/-- The values that a query is run with are those of its predicate. -/
theorem values_eq (q : Query) : values q = q.predicate.values := by
  change parameters (condition q.predicate) = q.predicate.values
  cases q.predicate with
  | always => rfl
  | test _ | not _ | compound _ _ =>
    exact (parameters_flatMap parameters_token _).trans (values_tokens _)

end Sql

end QueryFilter
