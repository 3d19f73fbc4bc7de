import QueryFilter.Json.Printer
import QueryFilter.Json.Record
import QueryFilter.Schema.Entity
import QueryFilter.Schema.Error

/-!
# Definitions

Schemas as they are stored: one JSON object for a type, with its attributes in order. A definition
may be inconsistent; the schema that it stands for exists only when each attribute states exactly
one kind and the primary key names a column.
-/

namespace QueryFilter

/-- The definition of an attribute. -/
structure Attribute.Definition where
  name : String
  type : Option String
  constants : List String
  enumName : Option String
  embedded : Option String
  association : Option String
  collection : Bool
  deriving DecidableEq, Repr

/-- The definition of a type. -/
structure Entity.Definition where
  name : String
  primaryKey : Option String
  embeddable : Bool
  attributes : List Attribute.Definition
  deriving DecidableEq, Repr

/-! ### From definitions to schemas -/

namespace Attribute.Definition

/-- The type of a column. -/
def columnType (d : Definition) (type : String) : Except SchemaDefect ColumnType :=
  if type = "enum" then
    if d.constants.isEmpty then .error (.noConstants d.name)
    else .ok (.enumeration (d.enumName.getD d.name) d.constants)
  else .ok (ColumnType.ofName type)

/-- The attribute that a definition stands for. -/
def toAttribute (d : Definition) : Except SchemaDefect Attribute :=
  match d.type, d.embedded, d.association with
  | some type, none, none =>
    if d.collection then .error (.collectionOfValues d.name)
    else (d.columnType type).map fun t => ⟨d.name, .basic t⟩
  | none, some schema, none => .ok ⟨d.name, .embedded schema⟩
  | none, none, some target => .ok ⟨d.name, .association target d.collection⟩
  | _, _, _ => .error (.notOneKind d.name)

end Attribute.Definition

namespace Entity

/-- Add the attributes that a list of definitions stands for, none of which is there yet. -/
def declareAll (e : Entity) : List Attribute.Definition → Except SchemaError Entity
  | [] => .ok e
  | d :: ds =>
    match d.toAttribute with
    | .error defect => .error (.ofType e.name defect)
    | .ok a =>
      match e.push? a with
      | none => .error (.ofType e.name (.declaredTwice a.name))
      | some e => declareAll e ds

/-- Whether a name is that of a column. -/
def hasColumn (e : Entity) (name : String) : Bool :=
  ((e.attribute? name).bind Attribute.columnType?).isSome

/-- The schema that a definition stands for. -/
def ofDefinition (d : Definition) : Except SchemaError Entity := do
  let start := { entity d.name with primaryKey := d.primaryKey, embeddable := d.embeddable }
  let e ← start.declareAll d.attributes
  match e.primaryKey with
  | none => return e
  | some pk =>
    if e.hasColumn pk then return e else throw (.ofType e.name (.primaryKeyNotBasic pk))

end Entity

/-! ### From schemas to definitions -/

/-- A definition with a name and nothing else. -/
def Attribute.Definition.named (name : String) : Attribute.Definition :=
  ⟨name, none, [], none, none, none, false⟩

/-- The definition of an attribute. -/
def Attribute.definition (a : Attribute) : Attribute.Definition :=
  let named := Definition.named a.name
  match a.kind with
  | .basic (.enumeration name constants) =>
    { named with type := some "enum", enumName := some name, constants := constants }
  | .basic t => { named with type := some t.name }
  | .embedded schema => { named with embedded := some schema }
  | .association target collection =>
    { named with association := some target, collection := collection }

/-- The definition of a schema. -/
def Entity.definition (e : Entity) : Entity.Definition :=
  ⟨e.name, e.primaryKey, e.embeddable, e.attributes.map Attribute.definition⟩

/-! ### Definitions as JSON -/

namespace Attribute.Definition

/-- The JSON object of a definition; what is not set is left out. -/
def toJson (d : Definition) : Json :=
  .object <|
    ("name", .string d.name) :: Json.optional "type" d.type ++
    (if d.constants.isEmpty then [] else [("constants", .array (d.constants.map .string))]) ++
    Json.optional "enum_name" d.enumName ++ Json.optional "embedded" d.embedded ++
    Json.optional "association" d.association ++
    (if d.collection then [("collection", .bool true)] else [])

/-- The text of a definition. -/
def toText (d : Definition) : String := d.toJson.text

/-- The definition that a draft spells. -/
def ofDraft? (v : Json.Draft) : Option Definition := do
  let r ← v.record?
    ["name", "type", "constants", "enum_name", "embedded", "association", "collection"]
  return {
    name := ← r.required "name" Json.Draft.string?
    type := ← r.get "type" Json.Draft.optionalString? none
    constants := ← r.get "constants" (Json.Draft.list? Json.Draft.string?) []
    enumName := ← r.get "enum_name" Json.Draft.optionalString? none
    embedded := ← r.get "embedded" Json.Draft.optionalString? none
    association := ← r.get "association" Json.Draft.optionalString? none
    collection := ← r.get "collection" Json.Draft.bool? false }

end Attribute.Definition

namespace Entity.Definition

/-- The JSON object of a definition. -/
def toJson (d : Definition) : Json :=
  .object <|
    ("name", .string d.name) :: Json.optional "primary_key" d.primaryKey ++
    [("embeddable", .bool d.embeddable),
      ("attributes", .array (d.attributes.map Attribute.Definition.toJson))]

/-- The text of a definition. -/
def toText (d : Definition) : String := d.toJson.text

/-- The definition that a draft spells. -/
def ofDraft? (v : Json.Draft) : Option Definition := do
  let r ← v.record? ["name", "primary_key", "embeddable", "attributes"]
  return {
    name := ← r.required "name" Json.Draft.string?
    primaryKey := ← r.get "primary_key" Json.Draft.optionalString? none
    embeddable := ← r.get "embeddable" Json.Draft.bool? false
    attributes := ← r.required "attributes" (Json.Draft.list? Attribute.Definition.ofDraft?) }

/-- The definition that a text spells. -/
def ofText? (text : String) : Option Definition := Json.Draft.read? text >>= ofDraft?

end Entity.Definition

end QueryFilter
