import QueryFilter.ColumnType

/-!
# Attributes

An attribute of a type is a column, a composite that lies in the same row, or a link to another
entity.
-/

namespace QueryFilter

/-- The kind of an attribute. -/
inductive AttributeKind
  | basic (type : ColumnType)
  | embedded (schema : String)
  | association (target : String) (collection : Bool)
  deriving DecidableEq, Repr

/-- An attribute. -/
structure Attribute where
  name : String
  kind : AttributeKind
  deriving DecidableEq, Repr

namespace Attribute

/-- Whether the attribute links to an entity. -/
def isAssociation (a : Attribute) : Bool :=
  match a.kind with
  | .association .. => true
  | _ => false

/-- Whether the attribute links to many entities. -/
def isCollection (a : Attribute) : Bool :=
  match a.kind with
  | .association _ collection => collection
  | _ => false

/-- Whether the attribute is a composite. -/
def isEmbedded (a : Attribute) : Bool :=
  match a.kind with
  | .embedded _ => true
  | _ => false

/-- The type of a column. -/
def columnType? (a : Attribute) : Option ColumnType :=
  match a.kind with
  | .basic t => some t
  | _ => none

end Attribute

end QueryFilter
