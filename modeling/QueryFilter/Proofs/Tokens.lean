import QueryFilter.Proofs.Predicate
import QueryFilter.Query.Sql

/-!
# The tokens of a predicate

What the tokens of a predicate are, whatever the number of its children, and which tests stand in
them.

* `Sql.tokens_not`, `Sql.tokens_compound`: the tokens of a negation and of a compound predicate;
* `Sql.tests_tokens`: the tests in the tokens are those of the predicate, in the same order.
-/

namespace QueryFilter.Sql

/-- The tokens of a predicate as a child of a compound one. -/
def childTokens (p : Predicate) : List Token :=
  if isCompound p then enclose (tokens p) else tokens p

theorem tokensOfAll_eq_map (ps : List Predicate) : tokensOfAll ps = ps.map childTokens := by
  induction ps with
  | nil => rfl
  | cons p ps ih => rw [tokensOfAll, ih, List.map_cons, childTokens]

theorem joinTokens_cons (op : Connective) (ts : List Token) (tss : List (List Token)) :
    joinTokens op (ts :: tss) = ts ++ tss.flatMap (.connective op :: ·) := by
  induction tss generalizing ts with
  | nil => simp [joinTokens]
  | cons us tss ih =>
    rw [joinTokens, ih, List.flatMap_cons, List.cons_append]
    exact List.cons_ne_nil us tss

theorem tokens_compound (op : Connective) (p : Predicate) (ps : List Predicate) :
    tokens (.compound op (p :: ps)) =
      childTokens p ++ (ps.map childTokens).flatMap (.connective op :: ·) := by
  rw [tokens, tokensOfAll_eq_map, List.map_cons, joinTokens_cons]
  exact List.cons_ne_nil p ps

theorem tokens_not {p : Predicate} (hp : ∀ c vs, p ≠ .test (.oneOf c vs)) :
    tokens (.not p) = .not :: enclose (tokens p) := by
  rw [tokens]
  exact hp

/-! ### Tests -/

/-- The test in a token, if there is one. -/
def Token.tests : Token → List Test
  | .atom (.test t) => [t]
  | .atom (.noneOf c vs) => [.oneOf c vs]
  | _ => []

theorem tests_enclose (ts : List Token) :
    (enclose ts).flatMap Token.tests = ts.flatMap Token.tests := by
  simp [enclose, Token.tests]

theorem tests_childTokens (p : Predicate) :
    (childTokens p).flatMap Token.tests = (tokens p).flatMap Token.tests := by
  unfold childTokens
  split
  · exact tests_enclose _
  · rfl

/-- The tokens of a predicate have its tests. -/
theorem tests_tokens (p : Predicate) : (tokens p).flatMap Token.tests = p.tests := by
  induction p with
  | always | test t => rfl
  | not p ih =>
    by_cases hp : ∃ c vs, p = .test (.oneOf c vs)
    · obtain ⟨c, vs, rfl⟩ := hp
      rfl
    · rw [tokens_not fun c vs heq => hp ⟨c, vs, heq⟩, Predicate.tests, ← ih]
      exact tests_enclose _
  | compound op ps ih =>
    cases ps with
    | nil => rfl
    | cons p ps =>
      have hchild : ∀ q ∈ p :: ps, (childTokens q).flatMap Token.tests = q.tests := fun q hq =>
        (tests_childTokens q).trans (ih q hq)
      have hop (ts : List Token) :
          (Token.connective op :: ts).flatMap Token.tests = ts.flatMap Token.tests := rfl
      rw [tokens_compound, List.flatMap_append, List.flatMap_assoc, List.flatMap_map,
        Predicate.tests_compound, List.flatMap_cons, hchild p List.mem_cons_self]
      simp only [hop]
      congr 1
      exact List.flatMap_congr fun q hq => hchild q (List.mem_cons_of_mem p hq)

end QueryFilter.Sql
