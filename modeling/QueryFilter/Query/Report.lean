import QueryFilter.Error
import QueryFilter.Metrics
import QueryFilter.Query.Compile

/-!
# Reported compilation

Compilation together with what it leaves in the metrics and in the log. Neither has an influence on
the result.
-/

namespace QueryFilter

/-- A result, the counters after it and the log records on the way to it. -/
structure Report (α : Type) where
  result : α
  metrics : Metrics
  records : List Log.Record

/-! ### Joins that are made -/

variable {τ : Type}

/-- The joins that the walk of a path makes: one at each association that is not joined yet. -/
def joinsOfWalk (C : Catalog τ) : FieldPath → τ → Source → (inner : List String) → JoinPlan → Nat
  | .broken _, _, _, _, _ | .last _, _, _, _, _ => 0
  | .step name join rest, type, source, inner, plan =>
    match C.attribute? type name with
    | none => 0
    | some a =>
      match a.kind with
      | .basic _ => 0
      | .embedded _ =>
        match C.embedded? type a with
        | none => 0
        | some sub => joinsOfWalk C rest sub source (inner ++ [a.name]) plan
      | .association _ collection =>
        let plan := if collection then plan.requireDistinct else plan
        match C.target? type a with
        | none => 0
        | some target =>
          let key := ⟨source, C.typeName type, inner ++ [a.name]⟩
          let (i, made, plan) := plan.join ⟨key, C.typeName target, join⟩
          made.toNat + joinsOfWalk C rest target (.joined i) [] plan

/-- The joins that leaves make which are compiled one after the other. -/
def joinsOfLeaves (C : Catalog τ) (config : Config) (root : τ) :
    List (String × Condition) → JoinPlan → Nat
  | [], _ => 0
  | (field, c) :: leaves, plan =>
    joinsOfWalk C (FieldPath.parse field) root .root [] plan +
      joinsOfLeaves C config root leaves (compileLeaf C config root field c plan).2

/-! ### Reports -/

namespace Report

/-- What is logged before a compilation. -/
def beginRecords (config : Config) (root : String) (es : List Expression) : List Log.Record :=
  let document :=
    if config.logExpressions then
      [Log.Event.filterDocument.record
        [("document", (Document.encode (Expression.allOf es)).toText), ("root", root)]]
    else []
  document ++
    [Log.Event.compileBegin.record [("expressions", toString es.length), ("root", root)]]

/-- What is logged after a compilation. -/
def endRecord (root : String) (plan : JoinPlan) : Except CompileError Predicate → Log.Record
  | .ok _ => Log.Event.compileComplete.record
    [("distinct", toString plan.distinct), ("joins", toString plan.joins.length), ("root", root)]
  | .error e => Log.Event.compileRejected.record
    [("code", e.code.text), ("field", e.field?.getD ""), ("message", e.message), ("root", root)]

/-- What a compilation adds to the counters: it is counted as a success or as a failure, and a
success counts the joins that it made and the need for duplicate elimination if it is new. -/
def count (before after : JoinPlan) (joins : Nat) (m : Metrics) :
    Except CompileError Predicate → Metrics
  | .ok _ =>
    let m := m.addCompilation.addJoins (UInt64.ofNat joins)
    if after.distinct && !before.distinct then m.addDistinct else m
  | .error _ => m.addRejection

/-- Compile a list of expressions into a join plan. -/
def compileFilter (C : Catalog τ) (config : Config) (root : τ) (es : List Expression)
    (plan : JoinPlan) (m : Metrics) : Report (Compiled Predicate) :=
  let compiled := QueryFilter.compileFilter C config root es plan
  let joins := joinsOfLeaves C config root (Expression.leavesOfAll es) plan
  { result := compiled
    metrics := count plan compiled.2 joins m compiled.1
    records := beginRecords config (C.typeName root) es ++
      [endRecord (C.typeName root) compiled.2 compiled.1] }

/-- Compile a list of expressions into a query. -/
def compileQuery (C : Catalog τ) (config : Config) (root : τ) (projection : Projection)
    (es : List Expression) (m : Metrics) : Report (Except CompileError Query) :=
  let r := compileFilter C config root es (.start (C.typeName root) (C.primaryKey? root)) m
  { r with result := r.result.1.map fun p => ⟨r.result.2, p, projection⟩ }

/-- Decode a document and compile it. A document that cannot be decoded leaves no trace. -/
def compileDocument (C : Catalog τ) (config : Config) (root : τ) (d : Document) (m : Metrics) :
    Report (Except Error Query) :=
  match d.expressions with
  | .error e => ⟨.error (.expression e), m, []⟩
  | .ok es =>
    let decoded := Log.Event.filterDecoded.record
      [("expressions", toString es.length), ("root", C.typeName root)]
    let r := compileQuery C config root .rows es m.addDecoded
    ⟨r.result.mapError .compile, r.metrics, decoded :: r.records⟩

end Report

end QueryFilter
