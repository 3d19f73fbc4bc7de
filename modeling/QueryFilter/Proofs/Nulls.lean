import Mathlib.Algebra.GroupWithZero.Nat
import QueryFilter.Proofs.Parameters
import QueryFilter.Proofs.Typing

/-!
# Nulls

What becomes of the nulls in a filter. One that is compared for equality makes a null test, and the
other operators with one operand refuse it. A list is converted element by element, so a null in it
is one of the values that the query is run with.

* `Condition.nullCount`: the nulls in the list of a condition;
* `Test.TreatsNull`: what a test does with the nulls of its condition;
* `treatsNull_of_endPredicate`: the tests that conditions give treat them so;
* `compileQuery_nulls`: hence the nulls among the values of a query are those in the lists of its
  filter.
-/

namespace QueryFilter

open Expression JoinPlan

variable {σ ρ τ : Type}

/-- The number of nulls in the list of a condition. -/
def Condition.nullCount : Condition → Nat
  | .single _ _ => 0
  | .list _ vs => vs.count .null

theorem Condition.nullCount_eq_zero_iff {c : Condition} :
    c.nullCount = 0 ↔ ∀ op vs, c = .list op vs → .null ∉ vs := by
  cases c with
  | single op v => simp [nullCount]
  | list op vs => simp [nullCount, List.count_eq_zero]

/-- What a test does with the nulls of its condition. A test for null or for its absence comes from
a comparison with null, a value or a pattern comes from an operand that is not null, and in a list
of values null stands where it stands in the list of operands. -/
def Test.TreatsNull (c : Condition) : Test σ → Prop
  | .isNull _ => c = .single (.compare .equal) .null
  | .isNotNull _ => c = .single (.compare .notEqual) .null
  | .compare _ _ value _ => value ≠ .null ∧ ∃ op raw, c = .single op raw ∧ raw ≠ .null
  | .like _ _ _ _ => ∃ op raw, c = .single op raw ∧ raw ≠ .null
  | .oneOf _ values =>
    ∃ op raws, c = .list op raws ∧
      List.Forall₂ (fun raw value => value = .null ↔ raw = .null) raws values

theorem Test.treatsNull_mapSource {c : Condition} (f : σ → ρ) {t : Test σ} :
    (t.mapSource f).TreatsNull c ↔ t.TreatsNull c := by
  cases t <;> rfl

/-! ### One test -/

/-- Null is what becomes null, and nothing else. -/
theorem Value.IsOperandOf.eq_null_iff {type : ColumnType} {raw : Json.Scalar} {v : Value}
    (h : v.IsOperandOf type raw) : v = .null ↔ raw = .null := by
  unfold IsOperandOf at h
  split at h
  · exact iff_of_true h ‹_›
  · exact iff_of_false h.ne_null ‹_›

theorem Value.isNull_iff {v : Value} : v.isNull ↔ v = .null := by
  cases v <;> simp [isNull]

theorem Value.lower_ne_null {v : Value} (h : v ≠ .null) : v.lower ≠ .null := by
  cases v with
  | null => exact absurd rfl h
  | _ => nofun

/-- A column is tested with a value only where its operand is not null. -/
theorem treatsNull_of_singleTest {field : String} {column : Column σ} {type : ColumnType}
    {op : SingleOperator} {raw : Json.Scalar} {value : Value} {t : Test σ}
    (hvalue : value = .null ↔ raw = .null) (hc : (Condition.single op raw).Valid)
    (h : singleTest field column type op raw value = .ok t) : t.TreatsNull (.single op raw) := by
  -- an operator that does not take null has another operand
  have operand_ne (hop : op.acceptsNull = false) : raw ≠ .null := fun hraw => by
    simpa [hop] using hc hraw
  have value_ne (hraw : raw ≠ .null) : value ≠ .null := fun hv => hraw (hvalue.1 hv)
  -- and the two that take it make a null test of it
  have operand_eq (hnull : value.isNull) : raw = .null := hvalue.1 (Value.isNull_iff.1 hnull)
  have operand_ne' (hnull : ¬value.isNull) : raw ≠ .null := fun hraw =>
    hnull (Value.isNull_iff.2 (hvalue.2 hraw))
  unfold singleTest at h
  split at h
  · cases h
    split
    · rw [operand_eq ‹_›]
      rfl
    · have hraw := operand_ne' ‹_›
      exact ⟨value_ne hraw, _, raw, rfl, hraw⟩
  · cases h
    split
    · rw [operand_eq ‹_›]
      rfl
    · have hraw := operand_ne' ‹_›
      exact ⟨value_ne hraw, _, raw, rfl, hraw⟩
  · rename_i comparison hne hne'
    split at h <;> cases h
    have hraw := operand_ne (by cases comparison <;> simp_all [SingleOperator.acceptsNull])
    exact ⟨value_ne hraw, _, raw, rfl, hraw⟩
  · split at h <;> cases h
    have hraw := operand_ne rfl
    exact ⟨Value.lower_ne_null (value_ne hraw), _, raw, rfl, hraw⟩
  · cases h
    exact ⟨_, raw, rfl, operand_ne rfl⟩

theorem treatsNull_of_endPredicate {field : String} {column : Column σ} {kind : AttributeKind}
    {c : Condition} {p : Predicate σ} (hc : c.Valid)
    (h : endPredicate field column kind c = .ok p) : ∃ t, p.tests = [t] ∧ t.TreatsNull c := by
  rcases endPredicate_eq_ok h with ⟨type, op, raw, value, t, -, rfl, hv, ht, rfl⟩ |
    ⟨type, op, raws, values, -, rfl, hvs, rfl⟩ | ⟨target, -, ⟨rfl, rfl⟩ | ⟨rfl, rfl⟩⟩
  · have hvalue := (isOperandOf_of_convertOperand hv).eq_null_iff
    exact ⟨t, rfl, treatsNull_of_singleTest hvalue hc ht⟩
  · have hvalues := (isOperandOf_of_convertOperands hvs).imp fun _ _ h => h.eq_null_iff
    exact ⟨.oneOf column values, by cases op <;> rfl, op, raws, rfl, hvalues⟩
  · exact ⟨_, rfl, rfl⟩
  · exact ⟨_, rfl, rfl⟩

/-! ### The values of a query -/

/-- Lists that have null in the same places have as many nulls. -/
theorem count_null_of_forall₂ {raws : List Json.Scalar} {values : List Value}
    (h : List.Forall₂ (fun raw value => value = .null ↔ raw = .null) raws values) :
    values.count .null = raws.count .null := by
  induction h with
  | nil => rfl
  | cons hnull _ ih => simp only [List.count_cons, ih, beq_iff_eq, hnull]

theorem Test.TreatsNull.count_values {c : Condition} {t : Test σ} (h : t.TreatsNull c) :
    t.values.count .null = c.nullCount := by
  cases t with
  | isNull | isNotNull =>
    rw [h]
    rfl
  | compare =>
    obtain ⟨hvalue, op, raw, rfl, -⟩ := h
    exact List.count_eq_zero.2 fun hmem => hvalue (List.mem_singleton.1 hmem).symm
  | like =>
    obtain ⟨op, raw, rfl, -⟩ := h
    rfl
  | oneOf column values =>
    obtain ⟨op, raws, rfl, hvalues⟩ := h
    exact count_null_of_forall₂ hvalues

/-- **Nulls.** Each leaf of a filter that is compiled has one test, which is a null test for a
comparison with null and has an operand other than null for its value or its pattern. A null among
the values that the query is run with comes from a list, where each null becomes one. So a query has
no null among its values exactly if no list of its filter holds one. -/
theorem compileQuery_nulls (C : Catalog τ) (config : Config) (root : τ) (projection : Projection)
    (es : List Expression) (q : Query)
    (hes : (∀ e ∈ es, e.Built) ∨ ∃ d : Document, d.expressions = .ok es)
    (h : compileQuery C config root projection es = .ok q) :
    List.Forall₂ (fun l t => t.TreatsNull l.2) (leavesOfAll es) q.predicate.tests ∧
      (Sql.values q).count .null = ((leavesOfAll es).map (·.2.nullCount)).sum ∧
      (.null ∉ Sql.values q ↔ ∀ l ∈ leavesOfAll es, ∀ op vs, l.2 = .list op vs → .null ∉ vs) := by
  have hbuilt : ∀ e ∈ es, e.Built := hes.elim id fun ⟨d, hd⟩ => Document.built_of_expressions hd
  have htests : List.Forall₂ (fun l t => t.TreatsNull l.2) (leavesOfAll es) q.predicate.tests := by
    rw [compileQuery_eq] at h
    obtain ⟨p, hp, rfl⟩ := Except.map_eq_ok_iff.1 h
    refine (forall₂_tests_of_compileFilter (grounded_start _ _) (Prod.ext hp rfl)
      (R := fun l t => t.TreatsNull l.2) fun l hl m hm => ?_).imp fun _ _ =>
        (Test.treatsNull_mapSource _).1
    obtain ⟨column, kind, hend⟩ := Catalog.endPredicate_of_meaning hm
    exact treatsNull_of_endPredicate (valid_of_mem_leavesOfAll hbuilt hl) hend
  have hcounts : q.predicate.tests.map (fun t => t.values.count .null) =
      (leavesOfAll es).map (·.2.nullCount) := by
    rw [eq_comm, ← List.forall₂_eq_eq_eq, List.forall₂_map_left_iff, List.forall₂_map_right_iff]
    exact htests.imp fun _ _ ht => ht.count_values.symm
  have hcount : (Sql.values q).count .null = ((leavesOfAll es).map (·.2.nullCount)).sum := by
    rw [Sql.values_eq, Predicate.values, List.count_flatMap, ← hcounts]
    rfl
  refine ⟨htests, hcount, ?_⟩
  rw [← List.count_eq_zero, hcount, List.sum_eq_zero_iff_forall_eq_nat]
  simp only [List.forall_mem_map, Condition.nullCount_eq_zero_iff]

/-- A link that is tested for null, a number, and a list with a null between two numbers. -/
theorem compileQuery_nulls_staff :
    let es := [
      .compound .or [.leaf "department" (.single (.compare .equal) .null),
        .leaf "id" (.list .oneOf [.number (.int 3), .null, .number (.int 4)])],
      .leaf "id" (.single (.compare .greater) (.number (.int 2)))]
    (∀ e ∈ es, e.Built) ∧
    ∃ q, compileQuery Registry.staff.catalog {} .employee .rows es = .ok q ∧
      List.Forall₂ (fun l t => t.TreatsNull l.2) (leavesOfAll es) q.predicate.tests ∧
      (Sql.values q).count .null = 1 ∧ .null ∈ Sql.values q := by
  intro es
  have hes : ∀ e ∈ es, e.Built := fun e he => Expression.built_iff.2 (by decide +revert)
  obtain ⟨q, hq⟩ : ∃ q, compileQuery Registry.staff.catalog {} .employee .rows es = .ok q :=
    Except.exists_ok_of_isOk (by decide +kernel)
  obtain ⟨htests, hcount, -⟩ := compileQuery_nulls _ _ _ _ es q (.inl hes) hq
  have hone : (Sql.values q).count .null = 1 := hcount.trans (by decide)
  exact ⟨hes, q, hq, htests, hone, List.count_pos_iff.1 (by omega)⟩

/-- Employees are asked for whose number is not in a list that holds a null, and the query is run
with null in the list. -/
theorem null_among_excluded_numbers :
    let es := [.leaf "id" (.list .noneOf [.number (.int 3), .null])]
    Registry.ofEntities [.employee, .department, .address] = .ok .staff ∧
    Expression.list "id" (.list .noneOf) [.int 3, .null] =
      .ok (.leaf "id" (.list .noneOf [.number (.int 3), .null])) ∧
    ∃ q, compileQuery Registry.staff.catalog {} .employee .rows es = .ok q ∧
      Sql.toText q = "SELECT t0 FROM Employee t0 WHERE t0.id NOT IN (?1, ?2)" ∧
      Sql.values q = [.integer .long 3, .null] := by
  intro es
  obtain ⟨q, hq⟩ : ∃ q, compileQuery Registry.staff.catalog {} .employee .rows es = .ok q :=
    Except.exists_ok_of_isOk (by decide +kernel)
  refine ⟨by decide +kernel, rfl, q, hq, ?_, ?_⟩
  · apply Except.eq_of_toOption_map Sql.toText hq
    decide +kernel
  · apply Except.eq_of_toOption_map Sql.values hq
    decide +kernel

end QueryFilter
