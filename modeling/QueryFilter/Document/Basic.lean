import QueryFilter.Expression.Basic
import QueryFilter.Json.Reader

/-!
# Filter documents

A filter document is a JSON object that spells an expression:

* `field: scalar` tests for equality and `field: [v, …]` for membership;
* `field: object` with one member compares by the operator that is its key;
* `$and: [document, …]` and `$or: [document, …]` join the filters of sub-documents.

Several members of a document are joined by `and`. Documents are values: appending an expression
gives a new document.
-/

namespace QueryFilter

/-- A filter document: the members of a JSON object. -/
structure Document where
  members : Json.Members
  deriving DecidableEq, Repr

namespace Document

/-- The document without members. -/
def empty : Document := ⟨[]⟩

/-- The document as a JSON value. -/
def toJson (d : Document) : Json := .object d.members

/-- The text of a document. -/
def toText (d : Document) : String := d.toJson.text

/-- The document that a value is; only objects are documents. -/
def ofJson : Json → Except ExpressionError Document
  | .object ms => .ok ⟨ms⟩
  | v => .error (.notDocument v)

/-- The document that a text spells. -/
def ofText (text : String) : Except ExpressionError Document :=
  match Json.read? text with
  | some v => ofJson v
  | none => .error .invalidJson

/-! ### Encoding -/

/-- The value of a leaf's member. Equality needs no operator. -/
def encodeCondition : Condition → Json
  | .single (.compare .equal) v => .scalar v
  | .single op v => .object [(op.token, .scalar v)]
  | .list op vs => .object [(op.token, .array (vs.map .scalar))]

mutual

/-- The one member that an expression becomes. -/
def encodeMember : Expression → String × Json
  | .leaf f c => (f, encodeCondition c)
  | .compound op es => (op.token, .array (encodeAll es))

/-- The sub-documents that a list of expressions becomes. -/
def encodeAll : List Expression → List Json
  | [] => []
  | e :: es => .object [encodeMember e] :: encodeAll es

end

/-- The document of an expression. -/
def encode (e : Expression) : Document := ⟨[encodeMember e]⟩

/-! ### Decoding -/

/-- The expression of a sub-document: that of its only member, or the conjunction of all. -/
def joinMembers : List Expression → Expression
  | [e] => e
  | es => .compound .and es

/-- The leaf of a field whose member is an object. -/
def decodeOperator (field : String) (ms : Json.Members) : Except ExpressionError Expression :=
  match ms with
  | [(token, operand)] =>
    match Operator.parse token (some field) with
    | .error e => .error e
    | .ok op =>
      match op, operand with
      | .list op, .scalar _ | .list op, .object _ => .error (.operatorNeedsArray field op)
      | op, operand => Expression.of field op operand
  | ms => .error (.operatorCount field ms.length)

/-- The leaf of a field. -/
def decodeLeaf (field : String) : Json → Except ExpressionError Expression
  | .object ms => decodeOperator field ms
  | .array values => Expression.list field (.list .oneOf) values
  | .scalar v => Expression.single field (.single (.compare .equal)) (.scalar v)

mutual

/-- The expression of a member. -/
def decodeMember (key : String) (v : Json) : Except ExpressionError Expression :=
  match Connective.ofKey? key, v with
  | some op, .array elements => (decodeElements key elements).map (.compound op)
  | some _, _ => .error (.connectiveNeedsArray key)
  | none, v => decodeLeaf key v

/-- The expressions of the sub-documents under a connective. -/
def decodeElements (key : String) : List Json → Except ExpressionError (List Expression)
  | [] => .ok []
  | .object ms :: vs => do
    let es ← decodeMembers ms
    let rest ← decodeElements key vs
    return joinMembers es :: rest
  | v :: _ => .error (.elementNotDocument key v)

/-- The expressions of the members of a document, one for each. -/
def decodeMembers : List (String × Json) → Except ExpressionError (List Expression)
  | [] => .ok []
  | (key, v) :: ms => do
    let e ← decodeMember key v
    let es ← decodeMembers ms
    return e :: es

end

/-- The expressions that a document spells, joined by `and`. -/
def expressions (d : Document) : Except ExpressionError (List Expression) := decodeMembers d.members

/-! ### Appending -/

/-- The document that joins a document with an expression. The empty document filters nothing, so
the expression stands alone. -/
def append (op : Connective) (d : Document) (e : Expression) : Document :=
  if d.members.isEmpty then encode e
  else ⟨[(op.token, .array [d.toJson, (encode e).toJson])]⟩

end Document

end QueryFilter
