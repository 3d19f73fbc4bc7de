import QueryFilter.Config
import QueryFilter.Document.Basic
import QueryFilter.FieldPath
import QueryFilter.Query.Error
import QueryFilter.Query.Predicate
import QueryFilter.Schema.Registry
import QueryFilter.Value.Conversion

/-!
# Compilation

Filters against a catalogue of types. Each leaf walks its path from the root type: an association
with a remainder is joined, a composite with a remainder stays in the row, and a column at the end
is tested. Compilation gives a predicate or the first error, and in either case the join plan as it
has become.
-/

namespace QueryFilter

/-! ### Tests of columns -/

/-- Convert the operand of a field. -/
def convertOperand (field : String) (type : ColumnType) (raw : Json) : Except CompileError Value :=
  match Value.ofOperand? raw type with
  | some v => .ok v
  | none => .error (.conversion field type.name raw)

/-- Convert a list of operands up to the first that does not convert. -/
def convertOperands (field : String) (type : ColumnType) :
    List Json → Except CompileError (List Value)
  | [] => .ok []
  | raw :: raws => do
    let v ← convertOperand field type raw
    let vs ← convertOperands field type raws
    return v :: vs

/-- The text of an operand as it was written. -/
def writtenText : Json.Scalar → String
  | .string s => s
  | v => v.text

/-- The pattern for a text that has to occur in another one. -/
def Anchor.pattern (text : String) : Anchor → String
  | .start => text ++ "%"
  | .finish => "%" ++ text
  | .anywhere => "%" ++ text ++ "%"

variable {σ : Type}

/-- The test of a column with a converted operand. -/
def singleTest (field : String) (column : Column σ) (type : ColumnType) (op : SingleOperator)
    (raw : Json.Scalar) (value : Value) : Except CompileError (Test σ) :=
  match op with
  | .compare .equal =>
    .ok (if value.isNull then .isNull column else .compare column .equal value false)
  | .compare .notEqual =>
    .ok (if value.isNull then .isNotNull column else .compare column .notEqual value false)
  | .compare c =>
    if type.isComparable then .ok (.compare column c value false)
    else .error (.notComparable field type.name op)
  | .equalIgnoringCase =>
    if type = .text then .ok (.compare column .equal value.lower true)
    else .error (.textRequired field type.name op)
  | .occurs anchor ignoreCase =>
    let written := writtenText raw
    let text := if ignoreCase then Text.lower written else written
    .ok (.like column (anchor.pattern text) ignoreCase (type != .text))

/-- The predicate of a condition on a column. The operand is converted first, so one that does not
convert is the error even where the operator would be refused. -/
def columnPredicate (field : String) (column : Column σ) (type : ColumnType) :
    Condition → Except CompileError (Predicate σ)
  | .single op raw => do
    let value ← convertOperand field type (.scalar raw)
    let t ← singleTest field column type op raw value
    return .test t
  | .list op raws => do
    let values ← convertOperands field type (raws.map .scalar)
    return match op with
      | .oneOf => .test (.oneOf column values)
      | .noneOf => .not (.test (.oneOf column values))

/-- The predicate of a condition on the attribute at the end of a path. -/
def endPredicate (field : String) (column : Column σ) (kind : AttributeKind) (c : Condition) :
    Except CompileError (Predicate σ) :=
  match kind with
  | .basic type => columnPredicate field column type c
  | .association _ false =>
    match c with
    | .single (.compare .equal) .null => .ok (.test (.isNull column))
    | .single (.compare .notEqual) .null => .ok (.test (.isNotNull column))
    | _ => .error (.path field .associationCompared)
  | .association _ true => .error (.path field .collectionCompared)
  | .embedded _ => .error (.path field .embeddedCompared)

/-! ### Paths -/

variable {τ : Type}

/-- What compiling a part of a filter gives: its result, and the join plan in any case. -/
abbrev Compiled (α : Type) := Except CompileError α × JoinPlan

/-- Walk a path from a type that is reached at `source` through the composites `inner`. -/
def walk (C : Catalog τ) (field : String) (c : Condition) :
    FieldPath → τ → Source → (inner : List String) → JoinPlan → Compiled Predicate
  | .broken text, _, _, _, plan => (.error (.emptySegment field text), plan)
  | .last name, type, source, inner, plan =>
    match C.attribute? type name with
    | none => (.error (.unknownAttribute field name (C.typeName type)), plan)
    | some a => (endPredicate field ⟨source, inner ++ [a.name]⟩ a.kind c, plan)
  | .step name join rest, type, source, inner, plan =>
    match C.attribute? type name with
    | none => (.error (.unknownAttribute field name (C.typeName type)), plan)
    | some a =>
      match a.kind with
      | .basic _ => (.error (.path field (.basicHasParts a.name)), plan)
      | .embedded _ =>
        match C.embedded? type a with
        | none => (.error (.path field (.embeddedMissing a.name)), plan)
        | some sub => walk C field c rest sub source (inner ++ [a.name]) plan
      | .association _ collection =>
        let plan := if collection then plan.requireDistinct else plan
        match C.target? type a with
        | none => (.error (.path field (.targetMissing a.name)), plan)
        | some target =>
          let key := ⟨source, C.typeName type, inner ++ [a.name]⟩
          let (i, _, plan) := plan.join ⟨key, C.typeName target, join⟩
          walk C field c rest target (.joined i) [] plan

/-! ### Filters -/

/-- Compile a leaf, which has to keep the limits on lists and paths. -/
def compileLeaf (C : Catalog τ) (config : Config) (root : τ) (field : String) (c : Condition)
    (plan : JoinPlan) : Compiled Predicate :=
  let values := match c with
    | .single _ _ => 0
    | .list _ vs => vs.length
  let segments := FieldPath.countSegments field.toList
  if values > config.maxListValues then
    (.error (.tooManyValues field values config.maxListValues), plan)
  else if segments > config.maxPathSegments then
    (.error (.tooManySegments field segments config.maxPathSegments), plan)
  else walk C field c (FieldPath.parse field) root .root [] plan

mutual

/-- Compile an expression. -/
def compileExpression (C : Catalog τ) (config : Config) (root : τ) :
    Expression → JoinPlan → Compiled Predicate
  | .leaf field c, plan => compileLeaf C config root field c plan
  | .compound op es, plan =>
    match compileAll C config root es plan with
    | (.ok ps, plan) => (.ok (.compound op ps), plan)
    | (.error e, plan) => (.error e, plan)

/-- Compile expressions from left to right up to the first error. -/
def compileAll (C : Catalog τ) (config : Config) (root : τ) :
    List Expression → JoinPlan → Compiled (List Predicate)
  | [], plan => (.ok [], plan)
  | e :: es, plan =>
    match compileExpression C config root e plan with
    | (.error err, plan) => (.error err, plan)
    | (.ok p, plan) =>
      match compileAll C config root es plan with
      | (.error err, plan) => (.error err, plan)
      | (.ok ps, plan) => (.ok (p :: ps), plan)

end

/-- The first expression that is nested too deeply is an error. -/
def checkDepth (config : Config) : List Expression → Except CompileError Unit
  | [] => .ok ()
  | e :: es =>
    if e.depth - 1 > config.maxDepth then .error (.tooDeep (e.depth - 1) config.maxDepth)
    else checkDepth config es

/-- Compile a list of expressions, joined by `and`, into a join plan. -/
def compileFilter (C : Catalog τ) (config : Config) (root : τ) (es : List Expression)
    (plan : JoinPlan) : Compiled Predicate :=
  match checkDepth config es with
  | .error e => (.error e, plan)
  | .ok () =>
    match compileAll C config root es plan with
    | (.ok ps, plan) => (.ok (Predicate.conjunction ps), plan)
    | (.error e, plan) => (.error e, plan)

/-- Compile a list of expressions into a query. -/
def compileQuery (C : Catalog τ) (config : Config) (root : τ) (projection : Projection)
    (es : List Expression) : Except CompileError Query :=
  match compileFilter C config root es (.start (C.typeName root) (C.primaryKey? root)) with
  | (.ok p, plan) => .ok ⟨plan, p, projection⟩
  | (.error e, _) => .error e

end QueryFilter
