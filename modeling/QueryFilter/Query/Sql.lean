import QueryFilter.Query.Predicate

/-!
# Queries as text

A query in the manner of SQL, with numbered placeholders for the values. The formula after `WHERE`
is a list of tokens: atoms, connectives and parentheses. Each token is a list of pieces: plain
text, a placeholder for a value, or a pattern in quotes. The text and the parameters are both read
off the pieces, so they line up.
-/

namespace QueryFilter.Sql

/-- A piece of the text of a query. -/
inductive Piece
  | plain (text : String)
  | placeholder (value : Value)
  | pattern (text : String)
  deriving DecidableEq, Repr

/-- An atom of a formula. -/
inductive Atom
  | constant (value : Bool)
  | test (t : Test)
  | noneOf (column : Column) (values : List Value)
  deriving DecidableEq, Repr

/-- A token of a formula. -/
inductive Token
  | atom (a : Atom)
  | not
  | connective (op : Connective)
  | opening
  | closing
  deriving DecidableEq, Repr

/-! ### Formulas as tokens -/

/-- Put a connective between lists of tokens. -/
def joinTokens (op : Connective) : List (List Token) → List Token
  | [] => []
  | [ts] => ts
  | ts :: tss => ts ++ .connective op :: joinTokens op tss

/-- Whether a predicate needs parentheses inside a compound one. -/
def isCompound : Predicate → Bool
  | .compound _ _ => true
  | _ => false

/-- Tokens between parentheses. -/
def enclose (ts : List Token) : List Token := .opening :: ts ++ [.closing]

mutual

/-- The tokens of a predicate. -/
def tokens : Predicate → List Token
  | .always => [.atom (.constant true)]
  | .test t => [.atom (.test t)]
  | .not (.test (.oneOf c vs)) => [.atom (.noneOf c vs)]
  | .not p => .not :: enclose (tokens p)
  | .compound op [] => [.atom (.constant (op == .and))]
  | .compound op ps => joinTokens op (tokensOfAll ps)

/-- The tokens of the children of a compound predicate. -/
def tokensOfAll : List Predicate → List (List Token)
  | [] => []
  | p :: ps => (if isCompound p then enclose (tokens p) else tokens p) :: tokensOfAll ps

end

/-! ### Tokens as pieces -/

/-- The text of a column. -/
def columnText (c : Column) : String := String.intercalate "." (c.source.alias :: c.segments)

/-- The sign of a comparison. -/
def comparisonSign : Comparison → String
  | .equal => "="
  | .notEqual => "<>"
  | .greater => ">"
  | .greaterOrEqual => ">="
  | .less => "<"
  | .lessOrEqual => "<="

/-- A text in lower case, as the database computes it. -/
def lowered (ignoreCase : Bool) (text : String) : String :=
  if ignoreCase then "lower(" ++ text ++ ")" else text

/-- Placeholders between commas. -/
def placeholders : List Value → List Piece
  | [] => []
  | [v] => [.placeholder v]
  | v :: vs => .placeholder v :: .plain ", " :: placeholders vs

/-- The pieces of a membership test. -/
def membership (c : Column) (keyword : String) (values : List Value) : List Piece :=
  .plain (columnText c ++ " " ++ keyword ++ " (") :: placeholders values ++ [.plain ")"]

/-- The pieces of a test. -/
def testPieces : Test → List Piece
  | .isNull c => [.plain (columnText c ++ " IS NULL")]
  | .isNotNull c => [.plain (columnText c ++ " IS NOT NULL")]
  | .compare c op v ignoreCase =>
    [.plain (lowered ignoreCase (columnText c) ++ " " ++ comparisonSign op ++ " "), .placeholder v]
  | .like c pattern ignoreCase castToText =>
    let column := if castToText then "CAST(" ++ columnText c ++ " AS text)" else columnText c
    [.plain (lowered ignoreCase column ++ " LIKE "), .pattern pattern]
  | .oneOf c vs => membership c "IN" vs

/-- The pieces of an atom. -/
def Atom.pieces : Atom → List Piece
  | .constant true => [.plain "1 = 1"]
  | .constant false => [.plain "1 = 0"]
  | .test t => testPieces t
  | .noneOf c vs => membership c "NOT IN" vs

/-- The pieces of a token. -/
def Token.pieces : Token → List Piece
  | .atom a => a.pieces
  | .not => [.plain "NOT "]
  | .connective .and => [.plain " AND "]
  | .connective .or => [.plain " OR "]
  | .opening => [.plain "("]
  | .closing => [.plain ")"]

/-! ### Queries -/

/-- What stands between `SELECT` and `FROM`. -/
def selection (q : Query) : String :=
  match q.projection, q.plan.distinct, q.plan.primaryKey with
  | .rows, true, _ => "DISTINCT t0"
  | .rows, false, _ => "t0"
  | .count, true, some pk => "COUNT(DISTINCT t0." ++ pk ++ ")"
  | .count, _, _ => "COUNT(*)"

/-- The text of a join, with the alias of its id at the end. -/
def joinText (j : Join) : String :=
  " " ++ j.type.keyword ++ " " ++ j.key.source.alias ++ "." ++ String.intercalate "." j.key.path ++
    " " ++ (Source.joined j.id).alias

/-- The text of all joins. -/
def joinsText (joins : List Join) : String := String.join (joins.map joinText)

/-- The text of a query up to its condition. -/
def head (q : Query) : String :=
  "SELECT " ++ selection q ++ " FROM " ++ q.plan.root ++ " t0" ++ joinsText q.plan.joins

/-- The pieces of the condition; a predicate that always holds needs none. -/
def condition : Predicate → List Piece
  | .always => []
  | p => .plain " WHERE " :: (tokens p).flatMap Token.pieces

/-- The pieces of a query. -/
def pieces (q : Query) : List Piece := .plain (head q) :: condition q.predicate

/-- A pattern between quotes, each quote in it written twice. -/
def quotePattern (s : String) : String :=
  let doubled := s.toList.flatMap fun c => if c = '\'' then ['\'', '\''] else [c]
  String.ofList ('\'' :: doubled ++ ['\''])

/-- The text of pieces whose first placeholder has a number. -/
def write : (number : Nat) → List Piece → String
  | _, [] => ""
  | n, .plain s :: ps => s ++ write n ps
  | n, .placeholder _ :: ps => "?" ++ toString n ++ write (n + 1) ps
  | n, .pattern s :: ps => quotePattern s ++ write n ps

/-- The values of the placeholders, in order. -/
def parameters : List Piece → List Value
  | [] => []
  | .placeholder v :: ps => v :: parameters ps
  | _ :: ps => parameters ps

theorem parameters_append (ps qs : List Piece) :
    parameters (ps ++ qs) = parameters ps ++ parameters qs := by
  induction ps with
  | nil => rfl
  | cons p ps ih => cases p <;> simp [parameters, ih]

/-- Each placeholder moves the numbers behind it by one. -/
theorem write_append (n : Nat) (ps qs : List Piece) :
    write n (ps ++ qs) = write n ps ++ write (n + (parameters ps).length) qs := by
  induction ps generalizing n with
  | nil => simp [write, parameters]
  | cons p ps ih =>
    cases p with
    | plain s | pattern s => simp [write, parameters, ih, String.append_assoc]
    | placeholder v =>
      simp [write, parameters, ih, String.append_assoc, Nat.add_right_comm, ← Nat.add_assoc]

/-- The text of a query. -/
def toText (q : Query) : String := write 1 (pieces q)

/-- The values that a query is run with. -/
def values (q : Query) : List Value := parameters (pieces q)

end QueryFilter.Sql
