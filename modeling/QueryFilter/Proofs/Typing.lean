import Mathlib.Data.List.Forall2
import QueryFilter.Proofs.Decoding
import QueryFilter.Proofs.Resolution

/-!
# Well-typed queries

Every test of a query suits the attribute that its column names: values have the type of the
column, orders are asked for only where there is one, and neither a link to many entities nor a
composite is tested.

* `Value.HasType`: the values of a type of columns;
* `Test.WellTyped`: the tests that suit an attribute;
* `Catalog.attributeAt?`: the attribute that names from a root type lead to;
* `Test.WellTypedIn`: a test suits the attribute that its column names;
* `Catalog.wellTyped_of_resolve`: what a path leads to is well typed;
* `Registry.wellTyped_of_compileFilter`: so are the tests of a filter, one for each of its leaves,
  in whatever plan it is compiled;
* `Registry.compileQuery_wellTyped`: and those of a query.
-/

namespace QueryFilter

open Expression JoinPlan

variable {σ ρ τ : Type}

/-! ### Typed values -/

/-- The values of a type of columns. Integers fit the width, a constant of an enumeration stands
at its ordinal, and null is a value of no type. -/
def Value.HasType : ColumnType → Value → Prop
  | .text, .text _ | .bool, .bool _ | .float, .float _ | .double, .double _ | .uuid, .uuid _
  | .date, .date _ | .datetime, .datetime _ | .instant, .instant _
  | .offsetDateTime, .offsetDateTime _ | .zonedDateTime, .zoned _ _ | .hijrahDate, .hijrah _ =>
    True
  | .integer w, .integer w' n => w' = w ∧ w.holds n
  | .enumeration _ constants, .enumeration i name => constants[i]? = some name
  | .foreign _, .raw v => v ≠ .null
  | _, _ => False

/-- What an operand becomes in a column of a type: null stays null, anything else is a value of
the type. -/
def Value.IsOperandOf (type : ColumnType) (raw : Json.Scalar) (v : Value) : Prop :=
  if raw = .null then v = .null else v.HasType type

theorem Value.HasType.ne_null {type : ColumnType} {v : Value} (h : v.HasType type) :
    v ≠ .null := by
  rintro rfl
  cases type <;> exact h

theorem Value.HasType.lower {type : ColumnType} {v : Value} (h : v.HasType type) :
    v.lower.HasType type := by
  cases v with
  | text s => cases type <;> trivial
  | _ => exact h

theorem Value.hasType_of_readZoned? {cs : List Char} {v : Value} (h : readZoned? cs = some v) :
    v.HasType .zonedDateTime := by
  unfold readZoned? at h
  dsimp only at h
  split at h
  · obtain ⟨t, -, rfl⟩ := Option.map_eq_some_iff.1 h
    trivial
  · split at h
    · obtain ⟨t, -, rfl⟩ := Option.map_eq_some_iff.1 h
      trivial
    · cases h

theorem Value.hasType_of_constant? {name : String} {constants : List String} {raw : Json}
    {v : Value} (h : constant? constants raw = some v) :
    v.HasType (.enumeration name constants) := by
  have at_ordinal {i : Nat} (hi : constants[i]?.map (Value.enumeration i ·) = some v) :
      v.HasType (.enumeration name constants) := by
    obtain ⟨c, hc, rfl⟩ := Option.map_eq_some_iff.1 hi
    exact hc
  unfold constant? at h
  split at h
  · split at h
    · exact at_ordinal h
    · cases h
  · exact at_ordinal h
  · cases h

/-- An operand other than null becomes a value of the type. -/
theorem Value.hasType_of_convert? {raw : Json} {type : ColumnType} {v : Value}
    (hraw : raw ≠ .null) (h : convert? raw type = some v) : v.HasType type := by
  cases type with
  | text | bool | double =>
    obtain ⟨x, -, rfl⟩ := Option.map_eq_some_iff.1 h
    trivial
  | integer w =>
    obtain ⟨n, -, h⟩ := Option.bind_eq_some_iff.1 h
    split at h
    · cases h
      exact ⟨rfl, ‹_›⟩
    · cases h
  | float | uuid | date | datetime | instant | offsetDateTime | hijrahDate =>
    obtain ⟨x, -, h⟩ := Option.bind_eq_some_iff.1 h
    obtain ⟨y, -, rfl⟩ := Option.map_eq_some_iff.1 h
    trivial
  | zonedDateTime =>
    obtain ⟨cs, -, h⟩ := Option.bind_eq_some_iff.1 h
    exact hasType_of_readZoned? h
  | enumeration name constants => exact hasType_of_constant? h
  | foreign name =>
    cases h
    exact hraw

theorem isOperandOf_of_convertOperand {field : String} {type : ColumnType} {raw : Json.Scalar}
    {v : Value} (h : convertOperand field type (.scalar raw) = .ok v) :
    v.IsOperandOf type raw := by
  rw [convertOperand_eq_ok_iff] at h
  unfold Value.IsOperandOf
  by_cases hraw : raw = .null
  · rw [hraw, Value.ofOperand?, if_pos rfl] at h
    cases h
    rw [if_pos hraw]
  · have hraw' : Json.scalar raw ≠ .null := fun heq => hraw (Json.scalar.inj heq)
    rw [Value.ofOperand?_of_ne_null hraw'] at h
    rw [if_neg hraw]
    exact Value.hasType_of_convert? hraw' h

/-- A list of operands is converted element by element. -/
theorem isOperandOf_of_convertOperands {field : String} {type : ColumnType}
    {raws : List Json.Scalar} {vs : List Value}
    (h : convertOperands field type (raws.map .scalar) = .ok vs) :
    List.Forall₂ (fun raw v => v.IsOperandOf type raw) raws vs :=
  (List.forall₂_map_left_iff.1 (convertOperands_eq_ok_iff.1 h)).imp fun _ _ =>
    isOperandOf_of_convertOperand

/-! ### Tests of a filter -/

theorem tests_toPredicate (g : String × Condition → Predicate σ) (e : Expression) :
    (e.toPredicate g).tests = e.leaves.flatMap fun l => (g l).tests := by
  induction e with
  | leaf field c => rw [toPredicate, leaves, List.flatMap_singleton]
  | compound op es ih =>
    rw [toPredicate, toPredicates_eq_map, Predicate.tests_compound, List.flatMap_map, leaves,
      leavesOfAll_eq_flatMap, List.flatMap_assoc]
    exact List.flatMap_congr ih

/-- The tests of a filter are those of its leaves. -/
theorem tests_conjunction_toPredicate (g : String × Condition → Predicate σ)
    (es : List Expression) :
    (Predicate.conjunction (es.map (toPredicate g))).tests =
      (leavesOfAll es).flatMap fun l => (g l).tests := by
  rw [Predicate.tests_conjunction, List.flatMap_map, leavesOfAll_eq_flatMap, List.flatMap_assoc]
  exact List.flatMap_congr fun e _ => tests_toPredicate g e

/-! ### Well-typed tests -/

/-- The tests of a condition that suit an attribute. Only columns are compared, and columns and
links to one entity are tested for null.

* A comparison has a value of the column's type. It asks for an order only where the type has
  one, and the case of letters is ignored only in texts that are compared for equality.
* A pattern is matched through the text of the column unless the column is a text.
* The values of a membership test are those of the condition's list, which keeps the limit. -/
def Test.WellTyped (config : Config) (kind : AttributeKind) (c : Condition) : Test σ → Prop
  | .isNull _ | .isNotNull _ =>
    (∃ type, kind = .basic type) ∨ ∃ target, kind = .association target false
  | .compare _ comparison value ignoreCase =>
    ∃ type, kind = .basic type ∧ value ≠ .null ∧ value.HasType type ∧
      (comparison.isOrdering → ∀ name, type ≠ .foreign name) ∧
      (ignoreCase → type = .text ∧ comparison = .equal)
  | .like _ _ _ castToText => ∃ type, kind = .basic type ∧ (castToText ↔ type ≠ .text)
  | .oneOf _ values =>
    ∃ type, kind = .basic type ∧ values ≠ [] ∧ values.length ≤ config.maxListValues ∧
      ∃ op raws, c = .list op raws ∧
        List.Forall₂ (fun raw v => v.IsOperandOf type raw) raws values

/-- A column is tested as its type allows. -/
theorem wellTyped_of_singleTest {config : Config} {field : String} {column : Column σ}
    {type : ColumnType} {op : SingleOperator} {raw : Json.Scalar} {value : Value} {t : Test σ}
    (hvalue : value.IsOperandOf type raw) (hc : (Condition.single op raw).Valid)
    (h : singleTest field column type op raw value = .ok t) :
    t.WellTyped config (.basic type) (.single op raw) := by
  -- an operator that does not take null has an operand of the type
  have typed (hop : op.acceptsNull = false) : value.HasType type := by
    rw [Value.IsOperandOf, if_neg fun hraw => by simpa [hop] using hc hraw] at hvalue
    exact hvalue
  -- so has a null test whose operand is not null
  have typed_of_isNull (hnull : ¬value.isNull) : value.HasType type := by
    by_cases hraw : raw = .null
    · rw [Value.IsOperandOf, if_pos hraw] at hvalue
      exact absurd (by rw [hvalue]; rfl) hnull
    · rwa [Value.IsOperandOf, if_neg hraw] at hvalue
  unfold singleTest at h
  split at h
  · cases h
    split
    · exact .inl ⟨type, rfl⟩
    · have hv := typed_of_isNull ‹_›
      exact ⟨type, rfl, hv.ne_null, hv, nofun, nofun⟩
  · cases h
    split
    · exact .inl ⟨type, rfl⟩
    · have hv := typed_of_isNull ‹_›
      exact ⟨type, rfl, hv.ne_null, hv, nofun, nofun⟩
  · rename_i comparison hne hne'
    split at h <;> cases h
    have hv := typed (by cases comparison <;> simp_all [SingleOperator.acceptsNull])
    exact ⟨type, rfl, hv.ne_null, hv, fun _ => isComparable_iff.1 ‹_›, nofun⟩
  · split at h <;> cases h
    have hv := (typed rfl).lower
    exact ⟨type, rfl, hv.ne_null, hv, nofun, fun _ => ⟨‹_›, rfl⟩⟩
  · cases h
    exact ⟨type, rfl, by simp⟩

/-- The predicate at the end of a path is one well-typed test of its column. -/
theorem wellTyped_of_endPredicate {config : Config} {field : String} {column : Column σ}
    {kind : AttributeKind} {c : Condition} {p : Predicate σ} (hc : c.Valid)
    (hlimit : ∀ op vs, c = .list op vs → vs.length ≤ config.maxListValues)
    (h : endPredicate field column kind c = .ok p) :
    ∃ t, p.tests = [t] ∧ t.column = column ∧ t.WellTyped config kind c := by
  rcases endPredicate_eq_ok h with ⟨type, op, raw, value, t, rfl, rfl, hv, ht, rfl⟩ |
    ⟨type, op, raws, values, rfl, rfl, hvs, rfl⟩ | ⟨target, rfl, ⟨rfl, rfl⟩ | ⟨rfl, rfl⟩⟩
  · exact ⟨t, rfl, column_of_singleTest ht,
      wellTyped_of_singleTest (isOperandOf_of_convertOperand hv) hc ht⟩
  · have hoperands := isOperandOf_of_convertOperands hvs
    have hlength := hoperands.length_eq
    have hne : values ≠ [] := by
      rintro rfl
      exact hc (List.length_eq_zero_iff.1 hlength)
    refine ⟨.oneOf column values, by cases op <;> rfl, rfl, type, rfl, hne, ?_, op, raws, rfl,
      hoperands⟩
    exact hlength ▸ hlimit op raws rfl
  · exact ⟨_, rfl, rfl, .inr ⟨target, rfl⟩⟩
  · exact ⟨_, rfl, rfl, .inr ⟨target, rfl⟩⟩

/-! ### Attributes by name -/

/-- The attribute that names lead to from a root type: the last name is its own, and those before
it lead to the type that it belongs to. -/
def Catalog.attributeAt? (C : Catalog τ) (root : τ) (path : List String) : Option Attribute :=
  match C.reach? root path.dropLast, path.getLast? with
  | some type, some name => C.attribute? type name
  | _, _ => none

theorem Catalog.attributeAt?_concat {C : Catalog τ} {root type : τ} {path : List String}
    (h : C.reach? root path = some type) (name : String) :
    C.attributeAt? root (path ++ [name]) = C.attribute? type name := by
  rw [attributeAt?, List.dropLast_concat, List.getLast?_concat, h]

/-- A test, with names from the root type in the place of sources, suits the attribute that its
column names. -/
def Test.WellTypedIn (C : Catalog τ) (config : Config) (root : τ) (c : Condition)
    (t : Test (List String)) : Prop :=
  ∃ a, C.attributeAt? root (t.column.source ++ t.column.segments) = some a ∧
    t.WellTyped config a.kind c

/-- What a path leads to is one test, which suits the attribute that its column names. -/
theorem Catalog.wellTyped_of_resolve {C : Catalog τ} (hC : C.Exact) {config : Config}
    {field : String} {c : Condition} {path : FieldPath} {root type : τ}
    {source inner : List String} {p : Predicate (List String)} (hc : c.Valid)
    (hlimit : ∀ op vs, c = .list op vs → vs.length ≤ config.maxListValues)
    (hreach : C.reach? root (source ++ inner) = some type)
    (h : C.resolve field c path type source inner = .ok p) :
    ∃ t, p.tests = [t] ∧ t.WellTypedIn C config root c := by
  induction path generalizing type source inner with
  | broken text => cases h
  | last name =>
    rw [resolve] at h
    cases ha : C.attribute? type name with
    | none =>
      rw [ha] at h
      cases h
    | some a =>
      rw [ha] at h
      obtain ⟨t, ht, hcolumn, htyped⟩ := wellTyped_of_endPredicate hc hlimit h
      refine ⟨t, ht, a, ?_, htyped⟩
      rw [hcolumn, ← List.append_assoc, attributeAt?_concat hreach, hC type name a ha, ha]
  | step name join rest ih =>
    obtain ⟨a, next, hstep, hrest⟩ := resolve_step_eq_ok_iff.1 h
    have hnext : C.reach? root (source ++ inner ++ [a.name]) = some next := by
      rw [reach?_concat hreach, name_of_step? hC hstep, hstep, Option.map_some]
    refine ih ?_ hrest
    -- behind a link and inside a composite alike, the name is added to those so far
    cases a.isAssociation
    · rw [if_neg Bool.false_ne_true, if_neg Bool.false_ne_true, ← List.append_assoc, hnext]
    · rw [if_pos rfl, if_pos rfl, List.append_nil, hnext]

/-! ### Queries -/

/-- A leaf that has a meaning has one well-typed test. -/
theorem Catalog.wellTyped_of_meaning {C : Catalog τ} (hC : C.Exact) {config : Config} {root : τ}
    {l : String × Condition} {p : Predicate (List String)} (hl : l.2.Valid)
    (h : C.meaning config root l = .ok p) :
    ∃ t, p.tests = [t] ∧ t.WellTypedIn C config root l.2 := by
  unfold meaning at h
  split at h
  · cases h
  · exact wellTyped_of_resolve hC hl (overLimit?_eq_none_iff.1 ‹_›).2 rfl h

/-- Elements that each give one related result give a list of related results. -/
theorem forall₂_flatMap_of_singleton {α β : Type} {R : α → β → Prop} {f : α → List β}
    {xs : List α} (h : ∀ x ∈ xs, ∃ y, f x = [y] ∧ R x y) : List.Forall₂ R xs (xs.flatMap f) := by
  induction xs with
  | nil => exact .nil
  | cons x xs ih =>
    obtain ⟨y, hy, hr⟩ := h x List.mem_cons_self
    rw [List.flatMap_cons, hy]
    exact .cons hr (ih fun z hz => h z (List.mem_cons_of_mem x hz))

/-- When the meaning of each leaf is one test, the tests of a filter are those of its leaves,
whatever plan it is compiled into. -/
theorem forall₂_tests_of_compileFilter {C : Catalog τ} {config : Config} {root : τ}
    {es : List Expression} {plan q : JoinPlan} {p : Predicate} (hplan : plan.Grounded)
    (h : compileFilter C config root es plan = (.ok p, q))
    {R : String × Condition → Test (List String) → Prop}
    (hR : ∀ l ∈ leavesOfAll es, ∀ m, C.meaning config root l = .ok m → ∃ t, m.tests = [t] ∧ R l t) :
    List.Forall₂ (fun l t => R l (t.mapSource q.names)) (leavesOfAll es) p.tests := by
  obtain ⟨g, hg, hnamed⟩ := exists_meaning_of_compileFilter hplan h
  -- the tests with names in the place of their sources are those of the meanings of the leaves
  have htests := congrArg Predicate.tests hnamed
  rw [Predicate.tests_mapSource, tests_conjunction_toPredicate] at htests
  rw [← List.forall₂_map_right_iff, htests]
  exact forall₂_flatMap_of_singleton fun l hl => hR l hl (g l) (hg l hl)

/-- The leaves of expressions that were built have valid conditions. -/
theorem Expression.valid_of_mem_leavesOfAll {es : List Expression} (hes : ∀ e ∈ es, e.Built)
    {l : String × Condition} (hl : l ∈ leavesOfAll es) : l.2.Valid := by
  rw [leavesOfAll_eq_flatMap] at hl
  obtain ⟨e, he, hle⟩ := List.mem_flatMap.1 hl
  exact (hes e he).valid l hle

/-- A filter that compiles into a grounded plan gives one well-typed test for each of its leaves,
whatever the plan holds already. -/
theorem Registry.wellTyped_of_compileFilter {r : Registry} {config : Config} {root : Entity}
    {es : List Expression} {plan q : JoinPlan} {p : Predicate} (hplan : plan.Grounded)
    (hes : ∀ e ∈ es, e.Built) (h : compileFilter r.catalog config root es plan = (.ok p, q)) :
    List.Forall₂ (fun l t => (t.mapSource q.names).WellTypedIn r.catalog config root l.2)
      (leavesOfAll es) p.tests :=
  forall₂_tests_of_compileFilter hplan h fun _ hl _ hm =>
    Catalog.wellTyped_of_meaning r.exact_catalog (valid_of_mem_leavesOfAll hes hl) hm

/-- **Queries are well typed.** The tests of a query are those of the leaves of its filter, one by
one. Each suits the attribute that its column names, once its source is replaced by the names that
lead to the source from the root type. -/
theorem Registry.compileQuery_wellTyped (r : Registry) (config : Config) (root : Entity)
    (projection : Projection) (es : List Expression) (q : Query)
    (hes : (∀ e ∈ es, e.Built) ∨ ∃ d : Document, d.expressions = .ok es)
    (h : compileQuery r.catalog config root projection es = .ok q) :
    List.Forall₂ (fun l t => (t.mapSource q.plan.names).WellTypedIn r.catalog config root l.2)
      (leavesOfAll es) q.predicate.tests := by
  have hbuilt : ∀ e ∈ es, e.Built := by
    rcases hes with hes | ⟨d, hd⟩
    · exact hes
    · exact Document.built_of_expressions hd
  rw [compileQuery_eq] at h
  obtain ⟨p, hp, rfl⟩ := Except.map_eq_ok_iff.1 h
  exact wellTyped_of_compileFilter (grounded_start _ _) hbuilt (Prod.ext hp rfl)

/-- A text behind a link with the case ignored, numbers with a null among them, a link that is
tested for null, and a pattern for a number. -/
theorem Registry.compileQuery_wellTyped_staff :
    let es := [
      .compound .or [.leaf "<department.name" (.single .equalIgnoringCase (.string "HR")),
        .leaf "id" (.list .noneOf [.number (.int 3), .null])],
      .leaf "department" (.single (.compare .notEqual) .null),
      .leaf "id" (.single (.occurs .start false) (.string "1"))]
    ∃ q, compileQuery staff.catalog {} .employee .rows es = .ok q ∧
      List.Forall₂
        (fun l t => (t.mapSource q.plan.names).WellTypedIn staff.catalog {} .employee l.2)
        (leavesOfAll es) q.predicate.tests := by
  intro es
  have hes : ∀ e ∈ es, e.Built := fun e he => Expression.built_iff.2 (by decide +revert)
  obtain ⟨q, hq⟩ : ∃ q, compileQuery staff.catalog {} .employee .rows es = .ok q :=
    Except.exists_ok_of_isOk (by decide +kernel)
  exact ⟨q, hq, compileQuery_wellTyped _ _ _ _ _ q (.inl hes) hq⟩

end QueryFilter
