import QueryFilter.Proofs.Predicate
import QueryFilter.Proofs.Walk

/-!
# The meaning of leaves

What a leaf means depends on the catalogue and on the root type, and not on the plan that it is
compiled into. The reference is a walk without a plan: a source is named by the attributes that
lead to it from the root type.

* `Catalog.resolve`: the walk without a plan;
* `walk_resolve`: the walk that joins gives the same predicate, once its sources are replaced by
  their names;
* `compileLeaf_meaning`: hence a leaf has one meaning, in whatever plan it is compiled.
-/

namespace QueryFilter

open JoinPlan

variable {τ : Type}

/-! ### Paths -/

/-- The predicate of a condition on the attribute that a path leads to. The walk stands at a type,
behind the association steps `source` and the composites `inner`. -/
def Catalog.resolve (C : Catalog τ) (field : String) (c : Condition) :
    FieldPath → τ → (source inner : List String) → Except CompileError (Predicate (List String))
  | .broken text, _, _, _ => .error (.emptySegment field text)
  | .last name, type, source, inner =>
    match C.attribute? type name with
    | none => .error (.unknownAttribute field name (C.typeName type))
    | some a => endPredicate field ⟨source, inner ++ [a.name]⟩ a.kind c
  | .step name _ rest, type, source, inner => do
    let (a, next) ← C.follow field type name
    if a.isAssociation then C.resolve field c rest next (source ++ inner ++ [a.name]) []
    else C.resolve field c rest next source (inner ++ [a.name])

theorem Catalog.resolve_step_ok {C : Catalog τ} {field : String} {c : Condition} {name : String}
    {join : JoinType} {rest : FieldPath} {type next : τ} {source inner : List String}
    {a : Attribute} (h : C.follow field type name = .ok (a, next)) :
    C.resolve field c (.step name join rest) type source inner =
      if a.isAssociation then C.resolve field c rest next (source ++ inner ++ [a.name]) []
      else C.resolve field c rest next source (inner ++ [a.name]) := by
  rw [resolve, h]
  rfl

theorem Catalog.resolve_step_error {C : Catalog τ} {field : String} {c : Condition}
    {name : String} {join : JoinType} {rest : FieldPath} {type : τ} {source inner : List String}
    {e : CompileError} (h : C.follow field type name = .error e) :
    C.resolve field c (.step name join rest) type source inner = .error e := by
  rw [resolve, h]
  rfl

/-- Errors of a path name the field. -/
theorem Catalog.field?_of_resolve {C : Catalog τ} {field : String} {c : Condition}
    {path : FieldPath} {type : τ} {source inner : List String} {e : CompileError}
    (h : C.resolve field c path type source inner = .error e) : e.field? = some field := by
  induction path generalizing type source inner with
  | broken text =>
    cases h
    rfl
  | last name =>
    rw [resolve] at h
    split at h
    · cases h
      rfl
    · exact (atEnd_of_endPredicate h).field?_eq
  | step name join rest ih =>
    cases hf : C.follow field type name with
    | error err =>
      rw [resolve_step_error hf] at h
      cases h
      exact field?_of_follow hf
    | ok next =>
      rw [resolve_step_ok hf] at h
      split at h <;> exact ih h

/-- A path gives the predicate of the condition on some attribute. -/
theorem Catalog.endPredicate_of_resolve {C : Catalog τ} {field : String} {c : Condition}
    {path : FieldPath} {type : τ} {source inner : List String} {p : Predicate (List String)}
    (h : C.resolve field c path type source inner = .ok p) :
    ∃ column kind, endPredicate field column kind c = .ok p := by
  induction path generalizing type source inner with
  | broken text => cases h
  | last name =>
    rw [resolve] at h
    split at h
    · cases h
    · exact ⟨_, _, h⟩
  | step name join rest ih =>
    cases hf : C.follow field type name with
    | error err =>
      rw [resolve_step_error hf] at h
      cases h
    | ok next =>
      rw [resolve_step_ok hf] at h
      split at h <;> exact ih h

/-- The predicate that a compilation gives, with the names of its sources in their place. -/
def Compiled.named (r : Compiled Predicate) : Except CompileError (Predicate (List String)) :=
  r.1.map (Predicate.mapSource r.2.names)

/-- The sources that a compilation refers to are in its plan. -/
def Compiled.InPlan (r : Compiled Predicate) : Prop :=
  ∀ p, r.1 = .ok p → ∀ column ∈ p.columns, column.source.IsBelow r.2.joins.length

theorem Compiled.inPlan_error (e : CompileError) (plan : JoinPlan) :
    Compiled.InPlan (.error e, plan) := by
  intro p h
  cases h

/-- A walk that joins gives what the walk without a plan gives, whether the joins on its way are
made by it or were there before. -/
theorem walk_resolve (C : Catalog τ) (field : String) (c : Condition) {path : FieldPath}
    {type : τ} {source : Source} {inner : List String} {plan : JoinPlan} (hp : plan.Grounded)
    (hs : source.IsBelow plan.joins.length) :
    Compiled.named (walk C field c path type source inner plan) =
        C.resolve field c path type (plan.names source) inner ∧
      Compiled.InPlan (walk C field c path type source inner plan) := by
  induction path generalizing type source inner plan with
  | broken text => exact ⟨rfl, Compiled.inPlan_error _ _⟩
  | last name =>
    rw [walk, Catalog.resolve]
    cases C.attribute? type name with
    | none => exact ⟨rfl, Compiled.inPlan_error _ _⟩
    | some a =>
      refine ⟨(endPredicate_mapSource plan.names field _ a.kind c).symm, ?_⟩
      intro p hok column hcolumn
      rw [columns_of_endPredicate hok, List.mem_singleton] at hcolumn
      subst hcolumn
      exact hs
  | step name join rest ih =>
    rcases walk_step_cases C field c name join rest type source inner plan with
      ⟨e, q, hf, hw, -⟩ | ⟨a, next, hf, has, hw⟩ | ⟨a, next, hf, has, hw⟩
    · rw [hw, Catalog.resolve_step_error hf]
      exact ⟨rfl, Compiled.inPlan_error _ _⟩
    · rw [hw, Catalog.resolve_step_ok hf, if_neg (by simp [has])]
      exact ih hp hs
    · rw [hw, Catalog.resolve_step_ok hf, if_pos has, List.append_assoc]
      dsimp only
      -- the join may be an old one, but the names that lead to it are those of this walk
      have hnames := hp.names_visit a.isCollection (j :=
        ⟨⟨source, C.typeName type, inner ++ [a.name]⟩, C.typeName next, join⟩) hs
      rw [← hnames]
      exact ih (hp.visit _ hs) (lt_length_visit ..)

/-! ### Leaves -/

/-- The meaning of a leaf: the limit that it exceeds, or what its path leads to. -/
def Catalog.meaning (C : Catalog τ) (config : Config) (root : τ) (l : String × Condition) :
    Except CompileError (Predicate (List String)) :=
  match overLimit? config l.1 l.2 with
  | some e => .error e
  | none => C.resolve l.1 l.2 (FieldPath.parse l.1) root [] []

theorem Catalog.field?_of_meaning {C : Catalog τ} {config : Config} {root : τ}
    {l : String × Condition} {e : CompileError} (h : C.meaning config root l = .error e) :
    e.field? = some l.1 := by
  unfold meaning at h
  split at h
  · cases h
    exact field?_of_overLimit? ‹_›
  · exact field?_of_resolve h

/-- A leaf that has a meaning is the test of its condition on some attribute. -/
theorem Catalog.endPredicate_of_meaning {C : Catalog τ} {config : Config} {root : τ}
    {l : String × Condition} {p : Predicate (List String)}
    (h : C.meaning config root l = .ok p) :
    ∃ column kind, endPredicate l.1 column kind l.2 = .ok p := by
  unfold meaning at h
  split at h
  · cases h
  · exact endPredicate_of_resolve h

theorem Catalog.columns_of_meaning {C : Catalog τ} {config : Config} {root : τ}
    {l : String × Condition} {p : Predicate (List String)}
    (h : C.meaning config root l = .ok p) : ∃ column, p.columns = [column] := by
  obtain ⟨column, kind, hend⟩ := endPredicate_of_meaning h
  exact ⟨column, columns_of_endPredicate hend⟩

theorem compileLeaf_meaning (C : Catalog τ) (config : Config) (root : τ) (field : String)
    (c : Condition) {plan : JoinPlan} (hp : plan.Grounded) :
    Compiled.named (compileLeaf C config root field c plan) = C.meaning config root (field, c) ∧
      Compiled.InPlan (compileLeaf C config root field c plan) := by
  rw [compileLeaf_eq, Catalog.meaning]
  dsimp only
  cases overLimit? config field c with
  | some e => exact ⟨rfl, Compiled.inPlan_error _ _⟩
  | none =>
    rw [← plan.names_root]
    exact walk_resolve C field c hp (Source.isBelow_root _)

end QueryFilter
