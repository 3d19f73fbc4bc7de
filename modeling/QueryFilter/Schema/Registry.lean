import QueryFilter.Schema.Entity
import QueryFilter.Schema.Error

/-!
# Registries

A registry is a set of types with different names, in the order of the names, in which every link
leads to a type of the right kind. A catalogue is all that a reader of schemas may ask about a
type: its attributes and where they lead. A registry is one catalogue; a loose collection of
types, whose links nobody has checked, is another.
-/

namespace QueryFilter

/-! ### Catalogues -/

/-- What may be asked about types of some sort. -/
structure Catalog (τ : Type) where
  typeName : τ → String
  attribute? : τ → String → Option Attribute
  /-- The type at the other end of an association. -/
  target? : τ → Attribute → Option τ
  /-- The type of a composite. -/
  embedded? : τ → Attribute → Option τ
  primaryKey? : τ → Option String

/-- The catalogue of types that are found by name. -/
def Catalog.ofLookup (lookup : String → Option Entity) (primaryKey? : Entity → Option String) :
    Catalog Entity where
  typeName e := e.name
  attribute? e name := e.attribute? name
  target? _ a :=
    match a.kind with
    | .association target _ => lookup target
    | _ => none
  embedded? _ a :=
    match a.kind with
    | .embedded schema => lookup schema
    | _ => none
  primaryKey?

/-! ### Registries -/

/-- Types in the order of their names. -/
structure Registry where
  types : List Entity
  deriving DecidableEq, Repr

namespace Registry

/-- The type with a name. -/
def lookup? (r : Registry) (name : String) : Option Entity := r.types.find? (·.name == name)

theorem mem_of_lookup? {r : Registry} {name : String} {e : Entity}
    (h : r.lookup? name = some e) : e ∈ r.types := List.mem_of_find?_eq_some h

theorem name_of_lookup? {r : Registry} {name : String} {e : Entity}
    (h : r.lookup? name = some e) : e.name = name := by
  simpa using List.find?_some h

/-- Insert a type in the order of the names; none when its name is taken. -/
def insert? (e : Entity) : List Entity → Option (List Entity)
  | [] => some [e]
  | t :: ts =>
    if e.name = t.name then none
    else if e.name < t.name then some (e :: t :: ts)
    else (insert? e ts).map (t :: ·)

/-- Insert types one after the other. -/
def insertAll (types : List Entity) : List Entity → Except SchemaError (List Entity)
  | [] => .ok types
  | e :: es =>
    match insert? e types with
    | some types => insertAll types es
    | none => .error (.duplicateType e.name)

/-- What is wrong with the link of an attribute, if anything is. -/
def linkDefect? (r : Registry) (a : Attribute) : Option SchemaDefect :=
  match a.kind with
  | .basic _ => none
  | .embedded schema =>
    match r.lookup? schema with
    | none => some (.unknownLink a.name schema)
    | some t => if t.embeddable then none else some (.linkNotEmbeddable a.name schema)
  | .association target _ =>
    match r.lookup? target with
    | none => some (.unknownLink a.name target)
    | some t => if t.embeddable then some (.linkNotEntity a.name target) else none

/-- The first wrong link of a type. -/
def typeError? (r : Registry) (e : Entity) : Option SchemaError :=
  (e.attributes.findSome? r.linkDefect?).map (.ofType e.name)

/-- The registry of a list of types: first no name may repeat, then all links are checked in the
order of the names. -/
def ofEntities (es : List Entity) : Except SchemaError Registry := do
  let types ← insertAll [] es
  let r : Registry := ⟨types⟩
  match types.findSome? r.typeError? with
  | some e => throw e
  | none => return r

/-- The type with a name, or the error that names it. -/
def find (r : Registry) (name : String) : Except SchemaError Entity :=
  match r.lookup? name with
  | some e => .ok e
  | none => .error (.unknownType name)

/-- The names of the types, in order. -/
def typeNames (r : Registry) : List String := r.types.map (·.name)

/-- The catalogue of a registry. -/
def catalog (r : Registry) : Catalog Entity := Catalog.ofLookup r.lookup? (·.primaryKey)

end Registry

/-! ### Loose types -/

/-- The last type of a list with a name. -/
def Entity.findLast? (es : List Entity) (name : String) : Option Entity :=
  es.reverse.find? (·.name == name)

/-- The last type of a list with a name, or the error that names it. -/
def Entity.findLast (es : List Entity) (name : String) : Except SchemaError Entity :=
  match findLast? es name with
  | some e => .ok e
  | none => .error (.unknownType name)

/-- The catalogue of a list of types with unchecked links, in which a later type replaces an earlier
one of the same name. It knows no primary keys. -/
def Catalog.loose (es : List Entity) : Catalog Entity :=
  .ofLookup (Entity.findLast? es) fun _ => none

end QueryFilter
