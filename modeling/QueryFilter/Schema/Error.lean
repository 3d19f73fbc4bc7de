/-!
# Errors of schemas

Why a definition, a set of schemas or a schema file is refused.
-/

namespace QueryFilter

/-- What is wrong with a definition or a file. -/
inductive SchemaDefect
  | collectionOfValues (name : String)
  | notOneKind (name : String)
  | noConstants (name : String)
  | declaredTwice (name : String)
  | primaryKeyNotBasic (name : String)
  | unknownLink (name target : String)
  | linkNotEmbeddable (name target : String)
  | linkNotEntity (name target : String)
  | unreadableDirectory
  | unreadableFile
  | unwritableFile
  | invalidJson
  deriving DecidableEq, Repr

/-- The description of a defect. -/
def SchemaDefect.text : SchemaDefect → String
  | collectionOfValues a => s!"attribute '{a}': only associations can be collections"
  | notOneKind a =>
    s!"attribute '{a}' must declare exactly one of type, embedded or association"
  | noConstants a => s!"enum attribute '{a}' declares no constants"
  | declaredTwice a => s!"attribute '{a}' is declared twice"
  | primaryKeyNotBasic pk => s!"primary key '{pk}' is not a basic attribute"
  | unknownLink a target => s!"attribute '{a}' refers to unknown type '{target}'"
  | linkNotEmbeddable a target =>
    s!"attribute '{a}' expects an embeddable but '{target}' is not one"
  | linkNotEntity a target => s!"attribute '{a}' expects an entity but '{target}' is not one"
  | unreadableDirectory => "Failed to read schema directory: there is no such directory"
  | unreadableFile => "Failed to read file: it is no text file"
  | unwritableFile => "Failed to write file: there is no such place"
  | invalidJson => "Invalid JSON: the text does not spell a definition"

/-- A reason to refuse schemas. A malformed schema names its source, and its type once it is
known. -/
inductive SchemaError
  | unknownType (name : String)
  | duplicateType (name : String)
  | malformed (source : String) (type : Option String) (defect : SchemaDefect)
  deriving DecidableEq, Repr

namespace SchemaError

/-- The stable codes. -/
inductive Code
  | unknownType
  | duplicateType
  | malformed
  deriving DecidableEq, Repr

/-- The text of a code. -/
def Code.text : Code → String
  | unknownType => "AERO_SCHEMA_UNKNOWN_TYPE"
  | duplicateType => "AERO_SCHEMA_DUPLICATE_TYPE"
  | malformed => "AERO_SCHEMA_MALFORMED"

/-- The code of an error. -/
def code : SchemaError → Code
  | unknownType _ => .unknownType
  | duplicateType _ => .duplicateType
  | malformed .. => .malformed

/-- Whether the program cannot start with such schemas, rather than one request being refused. -/
def isFatal : SchemaError → Bool
  | malformed .. => true
  | _ => false

/-- The type that is at fault. -/
def typeName? : SchemaError → Option String
  | unknownType t | duplicateType t => some t
  | malformed _ t _ => t

/-- The message of an error. -/
def message : SchemaError → String
  | unknownType t => s!"Type '{t}' is not registered"
  | duplicateType t => s!"Type '{t}' is defined more than once"
  | malformed source _ defect => s!"Malformed schema '{source}': {defect.text}"

/-- A defect in the definition of a type. -/
def ofType (name : String) (defect : SchemaDefect) : SchemaError :=
  .malformed name (some name) defect

end SchemaError

end QueryFilter
