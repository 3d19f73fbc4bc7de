import QueryFilter.Document.Basic

/-!
# The fields of a document

Which fields a document mentions, read off without decoding it. Members under a connective that
are no documents are passed over.
-/

namespace QueryFilter.Document

/-- A field of a document, with the token of its operator where one is written. -/
structure FieldRef where
  name : String
  operator : Option String
  value : Json
  deriving DecidableEq, Repr

/-- The mention of a field by a member. -/
def FieldRef.ofMember (key : String) : Json → FieldRef
  | .object [(token, operand)] => ⟨key, some token, operand⟩
  | v => ⟨key, none, v⟩

mutual

/-- The fields that a member mentions. -/
def fieldsOfMember (key : String) (v : Json) : List FieldRef :=
  match Connective.ofKey? key, v with
  | some _, .array elements => fieldsOfElements elements
  | some _, _ => []
  | none, v => [FieldRef.ofMember key v]

/-- The fields that the sub-documents under a connective mention. -/
def fieldsOfElements : List Json → List FieldRef
  | [] => []
  | .object ms :: vs => fieldsOfMembers ms ++ fieldsOfElements vs
  | _ :: vs => fieldsOfElements vs

/-- The fields that the members of a document mention. -/
def fieldsOfMembers : List (String × Json) → List FieldRef
  | [] => []
  | (key, v) :: ms => fieldsOfMember key v ++ fieldsOfMembers ms

end

/-- The fields that a document mentions, in its order. -/
def fields (d : Document) : List FieldRef := fieldsOfMembers d.members

/-- The names among a list, each at its first place. -/
def distinctNames (names : List String) : List String :=
  names.foldl (fun seen name => if name ∈ seen then seen else seen ++ [name]) []

/-- The names of the fields that a document mentions, each at its first use. -/
def fieldNames (d : Document) : List String := distinctNames (d.fields.map (·.name))

end QueryFilter.Document
