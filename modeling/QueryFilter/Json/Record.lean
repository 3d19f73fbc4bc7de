import QueryFilter.Json.Reader

/-!
# Records in JSON

How a record with named members is read from a draft. Its members may be given by name, in any
order and among others that are ignored, or as an array in the order of the record.
-/

namespace QueryFilter.Json

/-- A member that is left out when there is no value. -/
def optional (key : String) (v : Option String) : List (String × Json) :=
  match v with
  | some s => [(key, .string s)]
  | none => []

/-- The members of a record by name. -/
abbrev Record := List (String × Draft)

namespace Draft

/-- The parts of a draft that stand for the members of a record. By name, a member may not be
repeated; in order, there may be none too many. -/
def record? (keys : List String) : Draft → Option Record
  | .object ms => do
    let named ← ms.mapM fun (k, v) => k.map fun k => (k, v)
    let known := named.filter fun m => m.1 ∈ keys
    if (known.map (·.1)).Nodup then some known else none
  | .array vs => if vs.length ≤ keys.length then some (keys.zip vs) else none
  | .scalar _ => none

/-- A text. -/
def string? : Draft → Option String
  | .scalar (some (.string s)) => some s
  | _ => none

/-- A truth value. -/
def bool? : Draft → Option Bool
  | .scalar (some (.bool b)) => some b
  | _ => none

/-- An unsigned 64-bit integer. -/
def word? : Draft → Option Nat
  | .scalar (some (.number (.int n))) => if 0 ≤ n ∧ n < Int.pow 2 64 then some n.toNat else none
  | _ => none

/-- A text, or null for none. -/
def optionalString? : Draft → Option (Option String)
  | .scalar (some .null) => some none
  | v => v.string?.map some

/-- A list of items. -/
def list? {α : Type} (item : Draft → Option α) : Draft → Option (List α)
  | .array vs => vs.mapM item
  | _ => none

end Draft

namespace Record

/-- A member that has to be there. -/
def required {α : Type} (r : Record) (key : String) (read : Draft → Option α) : Option α :=
  r.lookup key >>= read

/-- A member with a default. -/
def get {α : Type} (r : Record) (key : String) (read : Draft → Option α) (default : α) :
    Option α :=
  match r.lookup key with
  | some v => read v
  | none => some default

end Record

end QueryFilter.Json
