import Mathlib.Logic.Relation
import QueryFilter.Proofs.Except
import QueryFilter.Proofs.Expression
import QueryFilter.Proofs.JoinPlan
import QueryFilter.Query.Compile

/-!
# Steps of a compilation

A compilation changes its plan at association steps only. This file says once what a segment of a
path can do, and what follows for a whole compilation, failed or not.

* `Catalog.follow`: where a segment before the last leads;
* `walk_step_cases`: all that a walk can do at such a segment;
* `compileLeaf_eq`, `compileExpression_compound`, `compileAll_cons_of_ok` and
  `compileFilter_of_checkDepth`: what compiling does with each kind of filter;
* `JoinPlan.Step`: one change of a plan;
* `compileFilter_keeps`: a filter keeps what the walks of its leaves keep;
* `compileFilter_steps`: a compilation is a sequence of such changes;
* `JoinPlan.Reached`: the plans that compilations reach, one after another, from a plan without
  joins;
* `Registry.staff`: a small registry for examples.
-/

namespace QueryFilter

variable {τ : Type}

/-! ### Segments before the last -/

theorem Attribute.isCollection_eq_false {a : Attribute} (h : a.isAssociation = false) :
    a.isCollection = false := by
  unfold isAssociation at h
  unfold isCollection
  split at h <;> simp_all

/-- Where a segment before the last leads from a type: its attribute, and the type that comes
next. -/
def Catalog.follow (C : Catalog τ) (field : String) (type : τ) (name : String) :
    Except CompileError (Attribute × τ) :=
  match C.attribute? type name with
  | none => .error (.unknownAttribute field name (C.typeName type))
  | some a =>
    match a.kind with
    | .basic _ => .error (.path field (.basicHasParts a.name))
    | .embedded _ =>
      match C.embedded? type a with
      | none => .error (.path field (.embeddedMissing a.name))
      | some sub => .ok (a, sub)
    | .association _ _ =>
      match C.target? type a with
      | none => .error (.path field (.targetMissing a.name))
      | some target => .ok (a, target)

/-- The attribute is a link or a composite, and the next type is what the catalogue gives for
it. -/
theorem Catalog.follow_eq_ok_iff {C : Catalog τ} {field : String} {type : τ} {name : String}
    {a : Attribute} {next : τ} :
    C.follow field type name = .ok (a, next) ↔ C.attribute? type name = some a ∧
      (a.isAssociation ∧ C.target? type a = some next ∨
        a.isEmbedded ∧ C.embedded? type a = some next) := by
  unfold Catalog.follow
  cases C.attribute? type name with
  | none => simp
  | some b =>
    dsimp only
    constructor
    · intro h
      split at h
      · cases h
      · rename_i hk
        split at h <;> cases h
        exact ⟨rfl, .inr ⟨by rw [Attribute.isEmbedded, hk], ‹_›⟩⟩
      · rename_i hk
        split at h <;> cases h
        exact ⟨rfl, .inl ⟨by rw [Attribute.isAssociation, hk], ‹_›⟩⟩
    · rintro ⟨hb, ⟨hk, hn⟩ | ⟨hk, hn⟩⟩ <;> cases hb
      · unfold Attribute.isAssociation at hk
        split at hk
        · rename_i h
          rw [h]
          dsimp only
          rw [hn]
        · cases hk
      · unfold Attribute.isEmbedded at hk
        split at hk
        · rename_i h
          rw [h]
          dsimp only
          rw [hn]
        · cases hk

theorem Catalog.field?_of_follow {C : Catalog τ} {field : String} {type : τ} {name : String}
    {e : CompileError} (h : C.follow field type name = .error e) : e.field? = some field := by
  unfold Catalog.follow at h
  split at h
  · cases h
    rfl
  · split at h
    · cases h
      rfl
    · split at h <;> cases h
      rfl
    · split at h <;> cases h
      rfl

/-- All that a walk can do at a segment before the last: stop, stay in the row, or go through an
association. A walk that stops leaves the plan as it was, but for a link to many entities that
leads nowhere. -/
theorem walk_step_cases (C : Catalog τ) (field : String) (c : Condition) (name : String)
    (join : JoinType) (rest : FieldPath) (type : τ) (source : Source) (inner : List String)
    (plan : JoinPlan) :
    (∃ e q, C.follow field type name = .error e ∧
      walk C field c (.step name join rest) type source inner plan = (.error e, q) ∧
      (q = plan ∨ q = plan.requireDistinct ∧ ∃ a, C.attribute? type name = some a ∧
        a.isCollection ∧ C.target? type a = none)) ∨
    (∃ a next, C.follow field type name = .ok (a, next) ∧ a.isAssociation = false ∧
      walk C field c (.step name join rest) type source inner plan =
        walk C field c rest next source (inner ++ [a.name]) plan) ∨
    ∃ a next, C.follow field type name = .ok (a, next) ∧ a.isAssociation ∧
      walk C field c (.step name join rest) type source inner plan =
        let v := plan.visit a.isCollection
          ⟨⟨source, C.typeName type, inner ++ [a.name]⟩, C.typeName next, join⟩
        walk C field c rest next (.joined v.1) [] v.2 := by
  rw [walk]
  unfold Catalog.follow
  cases ha : C.attribute? type name with
  | none => exact .inl ⟨_, _, rfl, rfl, .inl rfl⟩
  | some a =>
    dsimp only
    cases hk : a.kind with
    | basic t => exact .inl ⟨_, _, rfl, rfl, .inl rfl⟩
    | embedded schema =>
      cases he : C.embedded? type a with
      | none => exact .inl ⟨_, _, rfl, rfl, .inl rfl⟩
      | some sub => exact .inr (.inl ⟨a, sub, rfl, by rw [Attribute.isAssociation, hk], rfl⟩)
    | association target collection =>
      cases ht : C.target? type a with
      | none =>
        refine .inl ⟨_, _, rfl, rfl, ?_⟩
        cases collection with
        | false => exact .inl rfl
        | true => exact .inr ⟨rfl, a, rfl, by rw [Attribute.isCollection, hk], ht⟩
      | some next =>
        -- duplicate elimination is asked for before the join, as in a visit
        refine .inr (.inr ⟨a, next, rfl, by rw [Attribute.isAssociation, hk], ?_⟩)
        have hc : a.isCollection = collection := by rw [Attribute.isCollection, hk]
        rw [hc]
        rfl

/-! ### Leaves and filters -/

/-- The limit that a leaf exceeds, the size of its list before the length of its path. -/
def overLimit? (config : Config) (field : String) : Condition → Option CompileError
  | .list _ vs =>
    if vs.length > config.maxListValues then
      some (.tooManyValues field vs.length config.maxListValues)
    else segmentLimit
  | .single _ _ => segmentLimit
where
  /-- The limit on the length of the path. -/
  segmentLimit : Option CompileError :=
    let segments := FieldPath.countSegments field.toList
    if segments > config.maxPathSegments then
      some (.tooManySegments field segments config.maxPathSegments)
    else none

/-- A leaf that keeps the limits is walked from the root type. -/
theorem compileLeaf_eq (C : Catalog τ) (config : Config) (root : τ) (field : String)
    (c : Condition) (plan : JoinPlan) :
    compileLeaf C config root field c plan =
      match overLimit? config field c with
      | some e => (.error e, plan)
      | none => walk C field c (FieldPath.parse field) root .root [] plan := by
  unfold compileLeaf overLimit? overLimit?.segmentLimit
  cases c with
  | single op v =>
    rw [if_neg (Nat.not_lt_zero _)]
    dsimp only
    split <;> rfl
  | list op vs =>
    dsimp only
    split
    · rfl
    · split <;> rfl

theorem field?_of_overLimit? {config : Config} {field : String} {c : Condition}
    {e : CompileError} (h : overLimit? config field c = some e) : e.field? = some field := by
  unfold overLimit? overLimit?.segmentLimit at h
  grind [CompileError.field?]

section

variable (C : Catalog τ) (config : Config) (root : τ)

/-- A compound expression is compiled as its children are. -/
theorem compileExpression_compound (op : Connective) (es : List Expression) (plan : JoinPlan) :
    compileExpression C config root (.compound op es) plan =
      let r := compileAll C config root es plan
      (r.1.map (.compound op), r.2) := by
  rw [compileExpression]
  cases compileAll C config root es plan with
  | mk r q => cases r <;> rfl

variable {C config root}

/-- The rest is compiled into the plan that the first expression leaves behind. -/
theorem compileAll_cons_of_ok {e : Expression} {p : Predicate} {plan q : JoinPlan}
    (h : compileExpression C config root e plan = (.ok p, q)) (es : List Expression) :
    compileAll C config root (e :: es) plan =
      let r := compileAll C config root es q
      (r.1.map (p :: ·), r.2) := by
  rw [compileAll, h]
  dsimp only
  cases compileAll C config root es q with
  | mk r q' => cases r <;> rfl

/-- The rest is not compiled when the first expression fails. -/
theorem compileAll_cons_of_error {e : Expression} {err : CompileError} {plan q : JoinPlan}
    (h : compileExpression C config root e plan = (.error err, q)) (es : List Expression) :
    compileAll C config root (e :: es) plan = (.error err, q) := by
  rw [compileAll, h]

/-- A filter that is not nested too deeply is the conjunction of its expressions. -/
theorem compileFilter_of_checkDepth {es : List Expression} (h : checkDepth config es = .ok ())
    (plan : JoinPlan) :
    compileFilter C config root es plan =
      let r := compileAll C config root es plan
      (r.1.map Predicate.conjunction, r.2) := by
  rw [compileFilter, h]
  dsimp only
  cases compileAll C config root es plan with
  | mk r q => cases r <;> rfl

/-- A filter that is nested too deeply leaves the plan as it was. -/
theorem compileFilter_of_checkDepth_error {es : List Expression} {e : CompileError}
    (h : checkDepth config es = .error e) (plan : JoinPlan) :
    compileFilter C config root es plan = (.error e, plan) := by
  rw [compileFilter, h]

variable (C config root)

/-- A query is its filter compiled into a plan without joins. -/
theorem compileQuery_eq (projection : Projection) (es : List Expression) :
    compileQuery C config root projection es =
      let r := compileFilter C config root es (.start (C.typeName root) (C.primaryKey? root))
      r.1.map fun p => ⟨r.2, p, projection⟩ := by
  rw [compileQuery]
  cases compileFilter C config root es (.start (C.typeName root) (C.primaryKey? root)) with
  | mk r q => cases r <;> rfl

end

/-! ### Steps -/

/-- One change of a plan on the way of a compilation. -/
inductive JoinPlan.Step (C : Catalog τ) : JoinPlan → JoinPlan → Prop
  /-- An association of a type is walked through. -/
  | visit {p : JoinPlan} {type next : τ} {name : String} {a : Attribute} {source : Source}
      {inner : List String} {join : JoinType} :
    C.attribute? type name = some a → a.isAssociation → C.target? type a = some next →
    source.IsBelow p.joins.length →
    Step C p (p.visit a.isCollection
      ⟨⟨source, C.typeName type, inner ++ [a.name]⟩, C.typeName next, join⟩).2
  /-- A link to many entities leads nowhere. -/
  | missing {p : JoinPlan} {type : τ} {name : String} {a : Attribute} :
    C.attribute? type name = some a → a.isCollection → C.target? type a = none →
    Step C p p.requireDistinct

/-- Any number of changes of a plan. -/
abbrev JoinPlan.Steps (C : Catalog τ) : JoinPlan → JoinPlan → Prop :=
  Relation.ReflTransGen (JoinPlan.Step C)

theorem JoinPlan.Step.grows {C : Catalog τ} {p q : JoinPlan} (h : Step C p q) : p.Grows q := by
  cases h with
  | visit => exact grows_visit ..
  | missing => exact grows_requireDistinct p

theorem JoinPlan.Step.grounded {C : Catalog τ} {p q : JoinPlan} (h : Step C p q)
    (hp : p.Grounded) : q.Grounded := by
  cases h with
  | visit _ _ _ hs => exact hp.visit _ hs
  | missing => exact hp.requireDistinct

theorem JoinPlan.Steps.grows {C : Catalog τ} {p q : JoinPlan} (h : Steps C p q) : p.Grows q := by
  induction h with
  | refl => exact Grows.refl p
  | tail _ hstep ih => exact ih.trans hstep.grows

theorem JoinPlan.Steps.grounded {C : Catalog τ} {p q : JoinPlan} (h : Steps C p q)
    (hp : p.Grounded) : q.Grounded := by
  induction h with
  | refl => exact hp
  | tail _ hstep ih => exact hstep.grounded ih

/-! ### Compilations are sequences of steps -/

open JoinPlan

theorem walk_steps (C : Catalog τ) (field : String) (c : Condition) {path : FieldPath} {type : τ}
    {source : Source} {inner : List String} {plan : JoinPlan}
    (hs : source.IsBelow plan.joins.length) :
    Steps C plan (walk C field c path type source inner plan).2 := by
  induction path generalizing type source inner plan with
  | broken text => exact .refl
  | last name =>
    rw [walk]
    split <;> exact .refl
  | step name join rest ih =>
    rcases walk_step_cases C field c name join rest type source inner plan with
      ⟨e, q, -, hw, rfl | ⟨rfl, a, ha, hmany, ht⟩⟩ | ⟨a, next, -, -, hw⟩ | ⟨a, next, hf, has, hw⟩
    · rw [hw]
    · rw [hw]
      exact .single (.missing ha hmany ht)
    · rw [hw]
      exact ih hs
    · rw [hw]
      obtain ⟨ha, ⟨-, ht⟩ | ⟨hemb, -⟩⟩ := Catalog.follow_eq_ok_iff.1 hf
      · exact .head (.visit ha has ht hs) (ih (lt_length_visit ..))
      · exact absurd has (by grind [Attribute.isAssociation, Attribute.isEmbedded])

/-- A property of plans that the walk of a leaf keeps is kept by the leaf. -/
theorem compileLeaf_keeps {C : Catalog τ} {config : Config} {root : τ} {I : JoinPlan → Prop}
    {field : String} {c : Condition} {plan : JoinPlan} (hp : I plan)
    (hwalk : I (walk C field c (FieldPath.parse field) root .root [] plan).2) :
    I (compileLeaf C config root field c plan).2 := by
  rw [compileLeaf_eq]
  split
  · exact hp
  · exact hwalk

/-- A list of expressions keeps what each of them keeps. -/
theorem compileAll_keeps_of {C : Catalog τ} {config : Config} {root : τ} {I : JoinPlan → Prop}
    {es : List Expression}
    (h : ∀ e ∈ es, ∀ plan, I plan → I (compileExpression C config root e plan).2)
    {plan : JoinPlan} (hp : I plan) : I (compileAll C config root es plan).2 := by
  induction es generalizing plan with
  | nil => exact hp
  | cons e es ih =>
    have he := h e List.mem_cons_self plan hp
    cases hc : compileExpression C config root e plan with
    | mk r q =>
      rw [hc] at he
      cases r with
      | error err =>
        rw [compileAll_cons_of_error hc]
        exact he
      | ok p =>
        rw [compileAll_cons_of_ok hc]
        exact ih (fun d hd => h d (List.mem_cons_of_mem e hd)) he

section

variable {C : Catalog τ} {config : Config} {root : τ} {I : JoinPlan → Prop}
  (hleaf : ∀ field c plan, I plan → I (compileLeaf C config root field c plan).2)

include hleaf

/-- What each leaf keeps is kept by a tree of leaves. -/
theorem compileExpression_keeps (e : Expression) {plan : JoinPlan} (hp : I plan) :
    I (compileExpression C config root e plan).2 := by
  induction e generalizing plan with
  | leaf field c => exact hleaf field c plan hp
  | compound op es ih =>
    rw [compileExpression_compound]
    exact compileAll_keeps_of (fun e he plan => ih e he) hp

theorem compileAll_keeps (es : List Expression) {plan : JoinPlan} (hp : I plan) :
    I (compileAll C config root es plan).2 :=
  compileAll_keeps_of (fun e _ _ => compileExpression_keeps hleaf e) hp

theorem compileFilter_keeps (es : List Expression) {plan : JoinPlan} (hp : I plan) :
    I (compileFilter C config root es plan).2 := by
  cases hd : checkDepth config es with
  | error e =>
    rw [compileFilter_of_checkDepth_error hd]
    exact hp
  | ok =>
    rw [compileFilter_of_checkDepth hd]
    exact compileAll_keeps hleaf es hp

end

section

variable (C : Catalog τ) (config : Config) (root : τ)

/-- Steps that lead to a plan are followed by those of a leaf. -/
theorem compileLeaf_steps {p : JoinPlan} (field : String) (c : Condition) (plan : JoinPlan)
    (h : Steps C p plan) : Steps C p (compileLeaf C config root field c plan).2 :=
  compileLeaf_keeps h (h.trans (walk_steps C field c (Source.isBelow_root _)))

theorem compileExpression_steps (e : Expression) (plan : JoinPlan) :
    Steps C plan (compileExpression C config root e plan).2 :=
  compileExpression_keeps (compileLeaf_steps C config root) e .refl

theorem compileAll_steps (es : List Expression) (plan : JoinPlan) :
    Steps C plan (compileAll C config root es plan).2 :=
  compileAll_keeps (compileLeaf_steps C config root) es .refl

theorem compileFilter_steps (es : List Expression) (plan : JoinPlan) :
    Steps C plan (compileFilter C config root es plan).2 :=
  compileFilter_keeps (compileLeaf_steps C config root) es .refl

end

/-! ### Reached plans -/

/-- The plans that are reached from a plan without joins by any number of compilations, each of
which may succeed or fail. -/
inductive JoinPlan.Reached (C : Catalog τ) : JoinPlan → Prop
  | start (root : String) (primaryKey : Option String) : Reached C (.start root primaryKey)
  | compile {p : JoinPlan} (config : Config) (root : τ) (es : List Expression) :
    Reached C p → Reached C (compileFilter C config root es p).2

theorem JoinPlan.Reached.grounded {C : Catalog τ} {p : JoinPlan} (h : Reached C p) :
    p.Grounded := by
  induction h with
  | start root primaryKey => exact grounded_start root primaryKey
  | compile config root es _ ih => exact (compileFilter_steps C config root es _).grounded ih

/-! ### A small registry -/

/-- Addresses, which lie in the rows of employees. -/
def Entity.address : Entity := (embeddableType "Address").basic "city" .text

/-- Departments with their staff. -/
def Entity.department : Entity :=
  ((entity "Department").basic "name" .text).toMany "staff" "Employee"

/-- Employees with an address, in a department. -/
def Entity.employee : Entity :=
  ((((entity "Employee").withPrimaryKey "id").basic "id" (.integer .long)).embedded "address"
    "Address").toOne "department" "Department"

/-- The registry of employees, whose links lead round in a circle. -/
def Registry.staff : Registry := ⟨[.address, .department, .employee]⟩

example : (Registry.ofEntities [.employee, .department, .address]).toOption = some .staff := by
  decide

end QueryFilter
