import QueryFilter.Proofs.Distinct
import QueryFilter.Query.Sql

/-!
# Rows and their number

A filter is compiled to the same plan and the same predicate for the rows and for their number, so
the two texts differ only in what they select. Where there is a join over a link to many entities
the rows are selected without duplicates. Their number leaves out the duplicates as well, but it
needs the primary key for that; without one, it counts each row as often as it is joined.

* `Query.counted`: the number of the rows that a query selects;
* `Sql.SelectsDistinct`, `Sql.CountsDistinct`: how the texts begin that leave out duplicates;
* `Sql.selectsDistinct_iff`, `Sql.countsDistinct_iff`: the queries that are written so;
* `Sql.exists_clauses`: the texts differ in what they select only;
* `JoinPlan.JoinsMany`: whether there is a join over a link to many entities;
* `Registry.countsDistinct_iff_many`: the filters for which the rows and their number agree.
-/

namespace QueryFilter

open JoinPlan Expression

/-! ### The same query for the number -/

/-- The number of the rows that a query selects. -/
def Query.counted (q : Query) : Query := { q with projection := .count }

/-- The projection has no influence on what a filter is compiled to. -/
theorem compileQuery_count {τ : Type} (C : Catalog τ) (config : Config) (root : τ)
    (es : List Expression) : compileQuery C config root .count es =
      (compileQuery C config root .rows es).map Query.counted := by
  rw [compileQuery_eq, compileQuery_eq]
  cases compileFilter C config root es (.start (C.typeName root) (C.primaryKey? root)) with
  | mk r plan => cases r <;> rfl

theorem projection_of_compileQuery {τ : Type} {C : Catalog τ} {config : Config} {root : τ}
    {projection : Projection} {es : List Expression} {q : Query}
    (h : compileQuery C config root projection es = .ok q) : q.projection = projection := by
  rw [compileQuery_eq] at h
  obtain ⟨p, -, rfl⟩ := Except.map_eq_ok_iff.1 h
  rfl

/-- The plan of a query has the primary key of the root type, whatever was joined. -/
theorem primaryKey_of_compileQuery {τ : Type} {C : Catalog τ} {config : Config} {root : τ}
    {projection : Projection} {es : List Expression} {q : Query}
    (h : compileQuery C config root projection es = .ok q) :
    q.plan.primaryKey = C.primaryKey? root := by
  rw [compileQuery_eq] at h
  obtain ⟨p, -, rfl⟩ := Except.map_eq_ok_iff.1 h
  exact (compileFilter_steps C config root es _).grows.primaryKey

namespace Sql

/-! ### How the texts begin -/

/-- The text of a query behind what it selects. -/
def clauses (q : Query) : String :=
  " FROM " ++ q.plan.root ++ " t0" ++ joinsText q.plan.joins ++ write 1 (condition q.predicate)

theorem toText_eq (q : Query) : toText q = "SELECT " ++ selection q ++ clauses q := by
  simp [toText, pieces, write, head, clauses, String.append_assoc]

/-- Whether a text selects rows of the root type and leaves out duplicates. -/
def SelectsDistinct (text : String) : Prop := "SELECT DISTINCT ".toList <+: text.toList

/-- Whether a text counts rows of the root type and leaves out duplicates. -/
def CountsDistinct (text : String) : Prop := "SELECT COUNT(DISTINCT ".toList <+: text.toList

instance (text : String) : Decidable (SelectsDistinct text) :=
  inferInstanceAs (Decidable (_ <+: _))

instance (text : String) : Decidable (CountsDistinct text) :=
  inferInstanceAs (Decidable (_ <+: _))

theorem selectsDistinct_iff (q : Query) :
    SelectsDistinct (toText q) ↔ q.projection = .rows ∧ q.isDistinct := by
  rw [SelectsDistinct, toText_eq, selection, Query.isDistinct, clauses]
  cases q.projection <;> cases q.plan.distinct <;> cases q.plan.primaryKey <;> simp

theorem countsDistinct_iff (q : Query) :
    CountsDistinct (toText q) ↔
      q.projection = .count ∧ q.isDistinct ∧ q.plan.primaryKey.isSome := by
  rw [CountsDistinct, toText_eq, selection, Query.isDistinct, clauses]
  cases q.projection <;> cases q.plan.distinct <;> cases q.plan.primaryKey <;> simp

/-- Where duplicates are left out of both, the two texts say the same behind what they select. -/
theorem exists_clauses {q : Query} (hq : q.projection = .rows) (hdistinct : q.isDistinct)
    {pk : String} (hpk : q.plan.primaryKey = some pk) :
    ∃ clauses, toText q = "SELECT DISTINCT t0" ++ clauses ∧
      toText q.counted = "SELECT COUNT(DISTINCT t0." ++ pk ++ ")" ++ clauses := by
  have hrows : selection q = "DISTINCT t0" := by
    rw [selection, hq, show q.plan.distinct = true from hdistinct]
  have hnumber : selection q.counted = "COUNT(DISTINCT t0." ++ pk ++ ")" := by
    rw [selection, Query.counted, hpk, show q.plan.distinct = true from hdistinct]
  refine ⟨clauses q, ?_, ?_⟩
  · rw [toText_eq, hrows]
    rfl
  · rw [toText_eq, hnumber,
      show "SELECT COUNT(DISTINCT t0." = "SELECT " ++ "COUNT(DISTINCT t0." from rfl]
    simp only [String.append_assoc]
    rfl

end Sql

/-! ### Agreement -/

/-- Whether a plan has a join over a link to many entities. -/
def JoinPlan.JoinsMany (r : Registry) (plan : JoinPlan) : Prop :=
  ∃ j ∈ plan.joins, r.DeclaresMany j.key.owner j.key.path

/-- **Rows and their number.** In a registry that was built, a filter is compiled for the number of
rows if it is compiled for the rows, to the same plan and the same predicate and with the same
values. The rows are without duplicates exactly if there is a join over a link to many entities, and
so is their number if the root type has a primary key besides, by which they are told apart. So the
two agree but for a root type without a primary key, when there is such a join. -/
theorem Registry.countsDistinct_iff_many {types : List Entity} {r : Registry}
    (h : ofEntities types = .ok r) (config : Config) {root : Entity} (hroot : root ∈ r.types)
    (es : List Expression) :
    let rows := compileQuery r.catalog config root .rows es
    let count := compileQuery r.catalog config root .count es
    (∀ e, count = .error e ↔ rows = .error e) ∧
    ∀ q, rows = .ok q → ∃ q', count = .ok q' ∧
      q'.plan = q.plan ∧ q'.predicate = q.predicate ∧ Sql.values q' = Sql.values q ∧
      (Sql.SelectsDistinct (Sql.toText q) ↔ q.plan.JoinsMany r) ∧
      (Sql.CountsDistinct (Sql.toText q') ↔ root.primaryKey.isSome ∧ q.plan.JoinsMany r) ∧
      ((Sql.SelectsDistinct (Sql.toText q) ↔ Sql.CountsDistinct (Sql.toText q')) ↔
        root.primaryKey.isSome ∨ ¬q.plan.JoinsMany r) ∧
      ∀ pk, root.primaryKey = some pk → q.plan.JoinsMany r → ∃ clauses,
        Sql.toText q = "SELECT DISTINCT t0" ++ clauses ∧
        Sql.toText q' = "SELECT COUNT(DISTINCT t0." ++ pk ++ ")" ++ clauses := by
  intro rows count
  have hcount : count = rows.map Query.counted := compileQuery_count r.catalog config root es
  refine ⟨fun e => ?_, fun q hq => ⟨q.counted, ?_, rfl, rfl, rfl, ?_⟩⟩
  · rw [hcount]
    cases rows <;> simp [Except.map]
  · rw [hcount, hq]
    rfl
  · have hprojection : q.projection = .rows := projection_of_compileQuery hq
    have hkey : q.plan.primaryKey = root.primaryKey := primaryKey_of_compileQuery hq
    have hmany : q.isDistinct ↔ q.plan.JoinsMany r :=
      (sound_of_ofEntities h).isDistinct_iff hroot hq
    have hrows : Sql.SelectsDistinct (Sql.toText q) ↔ q.plan.JoinsMany r := by
      rw [Sql.selectsDistinct_iff, hmany]
      exact and_iff_right hprojection
    have hnumber : Sql.CountsDistinct (Sql.toText q.counted) ↔
        root.primaryKey.isSome ∧ q.plan.JoinsMany r := by
      rw [Sql.countsDistinct_iff, ← hmany, ← hkey]
      exact (and_iff_right rfl).trans and_comm
    refine ⟨hrows, hnumber, ?_, fun pk hpk hjoins => ?_⟩
    · rw [hrows, hnumber, iff_and_self, imp_iff_not_or, or_comm]
    · exact Sql.exists_clauses hprojection (hmany.2 hjoins) (hkey.trans hpk)

/-- Employees have a primary key, so their number agrees with the rows where the filter goes through
the staff of their department. -/
theorem Registry.countsDistinct_iff_many_employees :
    let compile (projection : Projection) := compileQuery staff.catalog {} .employee projection
      [.leaf "department.staff.id" (.single (.compare .equal) (.number (.int 7)))]
    ∃ q q', compile .rows = .ok q ∧ compile .count = .ok q' ∧
      q.plan.JoinsMany staff ∧
      Sql.SelectsDistinct (Sql.toText q) ∧ Sql.CountsDistinct (Sql.toText q') := by
  intro compile
  have hbuilt : ofEntities [.employee, .department, .address] = .ok staff := by decide +kernel
  have hemployee : Entity.employee ∈ staff.types := by decide
  obtain ⟨q, hq⟩ : ∃ q, compile .rows = .ok q := Except.exists_ok_of_isOk (by decide +kernel)
  obtain ⟨-, hagree⟩ := countsDistinct_iff_many hbuilt {} hemployee
    [.leaf "department.staff.id" (.single (.compare .equal) (.number (.int 7)))]
  obtain ⟨q', hq', -, -, -, hrows, hcount, -⟩ := hagree q hq
  have hjoins : q.plan.joins = [⟨⟨⟨.root, "Employee", ["department"]⟩, "Department", .inner⟩, 0⟩,
      ⟨⟨⟨.joined 0, "Department", ["staff"]⟩, "Employee", .inner⟩, 1⟩] :=
    Except.eq_of_toOption_map (·.plan.joins) hq (by decide +kernel)
  have hmany : q.plan.JoinsMany staff := by
    refine ⟨⟨⟨⟨.joined 0, "Department", ["staff"]⟩, "Employee", .inner⟩, 1⟩, by simp [hjoins], ?_⟩
    exact ⟨.department, "staff", ⟨"staff", .association "Employee" true⟩, by decide⟩
  exact ⟨q, q', hq, hq', hmany, hrows.2 hmany, hcount.2 ⟨rfl, hmany⟩⟩

/-- Departments have no primary key. A department is selected once, however many of its staff are
found, but it is counted once for each of them. -/
theorem Registry.counts_joined_departments :
    let compile (projection : Projection) := compileQuery staff.catalog {} .department projection
      [.leaf "staff.id" (.single (.compare .equal) (.number (.int 7)))]
    ofEntities [.employee, .department, .address] = .ok staff ∧ .department ∈ staff.types ∧
    ∃ q q', compile .rows = .ok q ∧ compile .count = .ok q' ∧
      q'.plan.JoinsMany staff ∧
      Sql.SelectsDistinct (Sql.toText q) ∧ ¬Sql.CountsDistinct (Sql.toText q') ∧
      Sql.toText q =
        "SELECT DISTINCT t0 FROM Department t0 INNER JOIN t0.staff t1 WHERE t1.id = ?1" ∧
      Sql.toText q' =
        "SELECT COUNT(*) FROM Department t0 INNER JOIN t0.staff t1 WHERE t1.id = ?1" := by
  intro compile
  obtain ⟨q, hq⟩ : ∃ q, compile .rows = .ok q := Except.exists_ok_of_isOk (by decide +kernel)
  obtain ⟨q', hq'⟩ : ∃ q', compile .count = .ok q' := Except.exists_ok_of_isOk (by decide +kernel)
  have hjoins : q'.plan.joins = [⟨⟨⟨.root, "Department", ["staff"]⟩, "Employee", .inner⟩, 0⟩] :=
    Except.eq_of_toOption_map (·.plan.joins) hq' (by decide +kernel)
  have hrows : Sql.toText q =
      "SELECT DISTINCT t0 FROM Department t0 INNER JOIN t0.staff t1 WHERE t1.id = ?1" :=
    Except.eq_of_toOption_map Sql.toText hq (by decide +kernel)
  have hcount : Sql.toText q' =
      "SELECT COUNT(*) FROM Department t0 INNER JOIN t0.staff t1 WHERE t1.id = ?1" :=
    Except.eq_of_toOption_map Sql.toText hq' (by decide +kernel)
  refine ⟨by decide +kernel, by decide, q, q', hq, hq', ?_, ?_, ?_, hrows, hcount⟩
  · refine ⟨⟨⟨⟨.root, "Department", ["staff"]⟩, "Employee", .inner⟩, 0⟩, by simp [hjoins], ?_⟩
    exact ⟨.department, "staff", ⟨"staff", .association "Employee" true⟩, by decide⟩
  · rw [hrows]
    decide
  · rw [hcount]
    decide

end QueryFilter
