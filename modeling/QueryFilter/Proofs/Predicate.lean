import Mathlib.Data.List.Basic
import QueryFilter.Proofs.Operands

/-!
# Sources of predicates

A predicate can be read with other sources in the place of its own. The predicate of a condition
does not look at the source of its column, so replacing the source before or after is the same.

* `Predicate.mapSource f p`: the predicate `p` with each source replaced by `f`;
* `Predicate.columns p`: the columns of the tests of `p` from left to right;
* `Predicate.tests p`: the tests themselves;
* `endPredicate_mapSource` and `columns_of_endPredicate`: what the predicate at the end of a path
  does with its column;
* `CompileError.AtEnd`: the errors that there may be in its place.
-/

namespace QueryFilter

variable {σ ρ : Type}

/-- A column read from another source. -/
def Column.mapSource (f : σ → ρ) (c : Column σ) : Column ρ := ⟨f c.source, c.segments⟩

namespace Test

/-- The column of a test. -/
def column : Test σ → Column σ
  | isNull c | isNotNull c | compare c _ _ _ | like c _ _ _ | oneOf c _ => c

/-- A test of another source. -/
def mapSource (f : σ → ρ) : Test σ → Test ρ
  | isNull c => isNull (c.mapSource f)
  | isNotNull c => isNotNull (c.mapSource f)
  | compare c op v ignoreCase => compare (c.mapSource f) op v ignoreCase
  | like c pattern ignoreCase castToText => like (c.mapSource f) pattern ignoreCase castToText
  | oneOf c vs => oneOf (c.mapSource f) vs

theorem column_mapSource (f : σ → ρ) (t : Test σ) :
    (t.mapSource f).column = t.column.mapSource f := by
  cases t <;> rfl

/-- Only the source of the column counts. -/
theorem mapSource_congr {f g : σ → ρ} {t : Test σ} (h : f t.column.source = g t.column.source) :
    t.mapSource f = t.mapSource g := by
  have hc : t.column.mapSource f = t.column.mapSource g := by rw [Column.mapSource, h]; rfl
  cases t <;> simp only [mapSource] <;> simp only [column] at hc <;> rw [hc]

end Test

namespace Predicate

/-- Induction over a predicate: a compound one may use the statement for each of its children. -/
@[elab_as_elim, induction_eliminator]
theorem induction {P : Predicate σ → Prop} (always : P always) (test : ∀ t, P (test t))
    (not : ∀ p, P p → P (not p))
    (compound : ∀ op ps, (∀ p ∈ ps, P p) → P (compound op ps)) : ∀ p, P p
  | .always => always
  | .test t => test t
  | .not p => not p (induction always test not compound p)
  | .compound op ps => compound op ps fun p _ => induction always test not compound p
termination_by p => sizeOf p
decreasing_by
  · simp only [Predicate.not.sizeOf_spec]
    omega
  · have := List.sizeOf_lt_of_mem ‹p ∈ ps›
    simp only [Predicate.compound.sizeOf_spec]
    omega

/-! ### Replacing sources -/

mutual

/-- The predicate with other sources. -/
def mapSource (f : σ → ρ) : Predicate σ → Predicate ρ
  | always => always
  | test t => test (t.mapSource f)
  | not p => not (p.mapSource f)
  | compound op ps => compound op (mapSourceOfAll f ps)

/-- A list of predicates with other sources. -/
def mapSourceOfAll (f : σ → ρ) : List (Predicate σ) → List (Predicate ρ)
  | [] => []
  | p :: ps => p.mapSource f :: mapSourceOfAll f ps

end

theorem mapSourceOfAll_eq_map (f : σ → ρ) (ps : List (Predicate σ)) :
    mapSourceOfAll f ps = ps.map (mapSource f) := by
  induction ps with
  | nil => rfl
  | cons p ps ih => rw [mapSourceOfAll, ih, List.map_cons]

theorem mapSource_compound (f : σ → ρ) (op : Connective) (ps : List (Predicate σ)) :
    (compound op ps).mapSource f = compound op (ps.map (mapSource f)) := by
  rw [mapSource, mapSourceOfAll_eq_map]

theorem mapSource_conjunction (f : σ → ρ) (ps : List (Predicate σ)) :
    (conjunction ps).mapSource f = conjunction (ps.map (mapSource f)) := by
  match ps with
  | [] | [_] => rfl
  | _ :: _ :: _ => exact mapSource_compound f .and _

/-! ### Columns -/

mutual

/-- The columns of the tests, from left to right. -/
def columns : Predicate σ → List (Column σ)
  | always => []
  | test t => [t.column]
  | not p => p.columns
  | compound _ ps => columnsOfAll ps

/-- The columns of the tests of a list of predicates. -/
def columnsOfAll : List (Predicate σ) → List (Column σ)
  | [] => []
  | p :: ps => p.columns ++ columnsOfAll ps

end

theorem columnsOfAll_eq_flatMap (ps : List (Predicate σ)) :
    columnsOfAll ps = ps.flatMap columns := by
  induction ps with
  | nil => rfl
  | cons p ps ih => rw [columnsOfAll, ih, List.flatMap_cons]

theorem columns_compound (op : Connective) (ps : List (Predicate σ)) :
    (compound op ps).columns = ps.flatMap columns := by
  rw [columns, columnsOfAll_eq_flatMap]

theorem columns_conjunction (ps : List (Predicate σ)) :
    (conjunction ps).columns = ps.flatMap columns := by
  match ps with
  | [] => rfl
  | [p] => exact (List.flatMap_singleton ..).symm
  | _ :: _ :: _ => exact columns_compound .and _

/-- Replacing sources changes the columns and nothing else. -/
theorem columns_mapSource (f : σ → ρ) (p : Predicate σ) :
    (p.mapSource f).columns = p.columns.map (Column.mapSource f) := by
  induction p with
  | always => rfl
  | test t => rw [mapSource, columns, columns, Test.column_mapSource, List.map_singleton]
  | not p ih => rw [mapSource, columns, columns, ih]
  | compound op ps ih =>
    rw [mapSource_compound, columns_compound, columns_compound, List.flatMap_map,
      List.map_flatMap]
    exact List.flatMap_congr ih

/-- Two ways of replacing agree when they agree on the sources of the columns. -/
theorem mapSource_congr {f g : σ → ρ} {p : Predicate σ}
    (h : ∀ c ∈ p.columns, f c.source = g c.source) : p.mapSource f = p.mapSource g := by
  induction p with
  | always => rfl
  | test t => rw [mapSource, mapSource, Test.mapSource_congr (h t.column (by simp [columns]))]
  | not p ih => rw [mapSource, mapSource, ih h]
  | compound op ps ih =>
    rw [mapSource_compound, mapSource_compound]
    congr 1
    refine List.map_congr_left fun p hp => ih p hp fun c hc => h c ?_
    rw [columns_compound]
    exact List.mem_flatMap.2 ⟨p, hp, hc⟩

/-! ### Tests -/

mutual

/-- The tests, from left to right. -/
def tests : Predicate σ → List (Test σ)
  | always => []
  | test t => [t]
  | not p => p.tests
  | compound _ ps => testsOfAll ps

/-- The tests of a list of predicates. -/
def testsOfAll : List (Predicate σ) → List (Test σ)
  | [] => []
  | p :: ps => p.tests ++ testsOfAll ps

end

theorem testsOfAll_eq_flatMap (ps : List (Predicate σ)) : testsOfAll ps = ps.flatMap tests := by
  induction ps with
  | nil => rfl
  | cons p ps ih => rw [testsOfAll, ih, List.flatMap_cons]

theorem tests_compound (op : Connective) (ps : List (Predicate σ)) :
    (compound op ps).tests = ps.flatMap tests := by
  rw [tests, testsOfAll_eq_flatMap]

theorem tests_conjunction (ps : List (Predicate σ)) :
    (conjunction ps).tests = ps.flatMap tests := by
  match ps with
  | [] => rfl
  | [p] => exact (List.flatMap_singleton ..).symm
  | _ :: _ :: _ => exact tests_compound .and _

theorem tests_mapSource (f : σ → ρ) (p : Predicate σ) :
    (p.mapSource f).tests = p.tests.map (Test.mapSource f) := by
  induction p with
  | always | test t => rfl
  | not p ih => rw [mapSource, tests, tests, ih]
  | compound op ps ih =>
    rw [mapSource_compound, tests_compound, tests_compound, List.flatMap_map, List.map_flatMap]
    exact List.flatMap_congr ih

/-- The columns are those of the tests. -/
theorem columns_eq_map_tests (p : Predicate σ) : p.columns = p.tests.map Test.column := by
  induction p with
  | always | test t => rfl
  | not p ih => rw [columns, tests, ih]
  | compound op ps ih =>
    rw [columns_compound, tests_compound, List.map_flatMap]
    exact List.flatMap_congr ih

/-- Each test has one column. -/
theorem testCount_eq_length_columns (p : Predicate σ) : p.testCount = p.columns.length := by
  induction p with
  | always | test t => rfl
  | not p ih => rw [testCount, columns, ih]
  | compound op ps ih =>
    rw [testCount, columns_compound]
    induction ps with
    | nil => rfl
    | cons p ps ihs =>
      rw [testCountOfAll, List.flatMap_cons, List.length_append, ih p List.mem_cons_self,
        ihs fun q hq => ih q (List.mem_cons_of_mem p hq)]

end Predicate

/-! ### The predicate at the end of a path -/

theorem singleTest_mapSource (f : σ → ρ) (field : String) (column : Column σ) (type : ColumnType)
    (op : SingleOperator) (raw : Json.Scalar) (value : Value) :
    singleTest field (column.mapSource f) type op raw value =
      (singleTest field column type op raw value).map (Test.mapSource f) := by
  rcases op with c | _ | ⟨anchor, ignoreCase⟩
  · cases c <;> simp only [singleTest] <;> split <;> rfl
  · simp only [singleTest]
    split <;> rfl
  · rfl

theorem endPredicate_mapSource (f : σ → ρ) (field : String) (column : Column σ)
    (kind : AttributeKind) (c : Condition) :
    endPredicate field (column.mapSource f) kind c =
      (endPredicate field column kind c).map (Predicate.mapSource f) := by
  cases kind with
  | basic type =>
    cases c with
    | single op raw =>
      simp only [endPredicate, columnPredicate]
      cases convertOperand field type (.scalar raw) with
      | error e => rfl
      | ok value =>
        simp only [singleTest_mapSource, bind, Except.bind]
        cases singleTest field column type op raw value <;> rfl
    | list op raws =>
      simp only [endPredicate, columnPredicate]
      cases convertOperands field type (raws.map .scalar) with
      | error e => rfl
      | ok values => cases op <;> rfl
  | embedded schema => rfl
  | association target collection =>
    cases collection with
    | true => rfl
    | false =>
      simp only [endPredicate]
      split <;> rfl

/-- The test is one of the column and no other. -/
theorem column_of_singleTest {field : String} {column : Column σ} {type : ColumnType}
    {op : SingleOperator} {raw : Json.Scalar} {value : Value} {t : Test σ}
    (h : singleTest field column type op raw value = .ok t) : t.column = column := by
  rcases op with c | _ | ⟨anchor, ignoreCase⟩
  · cases c <;> simp only [singleTest, Except.ok.injEq] at h <;> grind [Test.column]
  · grind [singleTest, Test.column]
  · cases h
    rfl

/-- Each way in which a condition gives a predicate: a column is tested with converted operands,
or a link to one entity is tested for null. -/
theorem endPredicate_eq_ok {field : String} {column : Column σ} {kind : AttributeKind}
    {c : Condition} {p : Predicate σ} (h : endPredicate field column kind c = .ok p) :
    (∃ type op raw value t, kind = .basic type ∧ c = .single op raw ∧
      convertOperand field type (.scalar raw) = .ok value ∧
      singleTest field column type op raw value = .ok t ∧ p = .test t) ∨
    (∃ type op raws values, kind = .basic type ∧ c = .list op raws ∧
      convertOperands field type (raws.map .scalar) = .ok values ∧
      p = match op with
        | .oneOf => .test (.oneOf column values)
        | .noneOf => .not (.test (.oneOf column values))) ∨
    ∃ target, kind = .association target false ∧
      (c = .single (.compare .equal) .null ∧ p = .test (.isNull column) ∨
        c = .single (.compare .notEqual) .null ∧ p = .test (.isNotNull column)) := by
  cases kind with
  | basic type =>
    cases c with
    | single op raw =>
      obtain ⟨value, hv, h⟩ := Except.bind_eq_ok_iff.1 h
      obtain ⟨t, ht, h⟩ := Except.bind_eq_ok_iff.1 h
      cases h
      exact .inl ⟨type, op, raw, value, t, rfl, rfl, hv, ht, rfl⟩
    | list op raws =>
      obtain ⟨values, hv, h⟩ := Except.bind_eq_ok_iff.1 h
      cases h
      exact .inr (.inl ⟨type, op, raws, values, rfl, rfl, hv, rfl⟩)
  | embedded schema => cases h
  | association target collection =>
    cases collection with
    | true => cases h
    | false =>
      refine .inr (.inr ⟨target, rfl, ?_⟩)
      simp only [endPredicate] at h
      split at h <;> cases h
      · exact .inl ⟨rfl, rfl⟩
      · exact .inr ⟨rfl, rfl⟩

/-- The predicate tests the column and no other. -/
theorem columns_of_endPredicate {field : String} {column : Column σ} {kind : AttributeKind}
    {c : Condition} {p : Predicate σ} (h : endPredicate field column kind c = .ok p) :
    p.columns = [column] := by
  rcases endPredicate_eq_ok h with ⟨type, op, raw, value, t, -, -, -, ht, rfl⟩ |
    ⟨type, op, raws, values, -, -, -, rfl⟩ | ⟨target, -, ⟨-, rfl⟩ | ⟨-, rfl⟩⟩
  · rw [Predicate.columns, column_of_singleTest ht]
  · cases op <;> rfl
  · rfl
  · rfl

/-! ### The errors at the end of a path -/

/-- The errors that a condition on the attribute at the end of a path gives. -/
inductive CompileError.AtEnd (field : String) : CompileError → Prop
  | conversion (type : String) (raw : Json) : AtEnd field (.conversion field type raw)
  | notComparable (type : String) (op : SingleOperator) : AtEnd field (.notComparable field type op)
  | textRequired (type : String) (op : SingleOperator) : AtEnd field (.textRequired field type op)
  | associationCompared : AtEnd field (.path field .associationCompared)
  | collectionCompared : AtEnd field (.path field .collectionCompared)
  | embeddedCompared : AtEnd field (.path field .embeddedCompared)

/-- They name the field. -/
theorem CompileError.AtEnd.field?_eq {field : String} {e : CompileError} (h : e.AtEnd field) :
    e.field? = some field := by
  cases h <;> rfl

theorem atEnd_of_convertOperand {field : String} {type : ColumnType} {raw : Json}
    {e : CompileError} (h : convertOperand field type raw = .error e) : e.AtEnd field := by
  obtain ⟨-, rfl⟩ := convertOperand_eq_error_iff.1 h
  exact .conversion _ _

theorem atEnd_of_convertOperands {field : String} {type : ColumnType} {raws : List Json}
    {e : CompileError} (h : convertOperands field type raws = .error e) : e.AtEnd field := by
  obtain ⟨-, raw, -, -, -, hraw⟩ := convertOperands_eq_error_iff.1 h
  exact atEnd_of_convertOperand hraw

theorem atEnd_of_singleTest {field : String} {column : Column σ} {type : ColumnType}
    {op : SingleOperator} {raw : Json.Scalar} {value : Value} {e : CompileError}
    (h : singleTest field column type op raw value = .error e) : e.AtEnd field := by
  unfold singleTest at h
  split at h
  · cases h
  · cases h
  · split at h <;> cases h
    exact .notComparable _ _
  · split at h <;> cases h
    exact .textRequired _ _
  · cases h

theorem atEnd_of_endPredicate {field : String} {column : Column σ} {kind : AttributeKind}
    {c : Condition} {e : CompileError} (h : endPredicate field column kind c = .error e) :
    e.AtEnd field := by
  cases kind with
  | basic type =>
    cases c with
    | single op raw =>
      rcases Except.bind_eq_error_iff.1 h with h | ⟨value, -, h⟩
      · exact atEnd_of_convertOperand h
      · rcases Except.bind_eq_error_iff.1 h with h | ⟨t, -, h⟩
        · exact atEnd_of_singleTest h
        · cases h
    | list op raws =>
      rcases Except.bind_eq_error_iff.1 h with h | ⟨values, -, h⟩
      · exact atEnd_of_convertOperands h
      · cases h
  | embedded schema =>
    cases h
    exact .embeddedCompared
  | association target collection =>
    cases collection with
    | true =>
      cases h
      exact .collectionCompared
    | false =>
      simp only [endPredicate] at h
      split at h <;> cases h
      exact .associationCompared

end QueryFilter
