import QueryFilter.Json.Token

/-!
# Reading JSON

The tokens of a text drive a machine with a stack of open arrays and objects. What it builds is a
`Draft`: every member in the order of the text, repeated keys included, and leaves that may lack a
value. A draft becomes a value when all its leaves have one and its nesting is within a bound; a
repeated key then keeps its first position and takes its last value.
-/

namespace QueryFilter.Json

/-- A value as it stands in a text. -/
inductive Draft
  | scalar (value : Option Scalar)
  | array (elements : List Draft)
  | object (members : List (Option String × Draft))
  deriving Repr

namespace Draft

/-! ### The machine -/

/-- An open array or object, with its parts so far in reverse. -/
inductive Frame
  | array (elements : List Draft)
  | object (members : List (Option String × Draft))
  | member (members : List (Option String × Draft)) (key : Option String)

/-- What may come next. -/
inductive Expected
  | value
  | firstElement
  | firstKey
  | key
  | colon
  | separator
  | nothing (result : Draft)

/-- The open frames, innermost first, and what may come next. -/
structure Machine where
  stack : List Frame
  expected : Expected

/-- A value is complete. -/
def Machine.complete? (stack : List Frame) (v : Draft) : Option Machine :=
  match stack with
  | [] => some ⟨[], .nothing v⟩
  | .array xs :: stack => some ⟨.array (v :: xs) :: stack, .separator⟩
  | .member ms k :: stack => some ⟨.object ((k, v) :: ms) :: stack, .separator⟩
  | .object _ :: _ => none

/-- A value begins with a token. -/
def Machine.begin? (stack : List Frame) : Token → Option Machine
  | .plain s => complete? stack (.scalar s)
  | .string s => complete? stack (.scalar (s.map .string))
  | .openArray => some ⟨.array [] :: stack, .firstElement⟩
  | .openObject => some ⟨.object [] :: stack, .firstKey⟩
  | _ => none

/-- A key is read. -/
def Machine.key? (stack : List Frame) (k : Option String) : Option Machine :=
  match stack with
  | .object ms :: stack => some ⟨.member ms k :: stack, .colon⟩
  | _ => none

/-- The innermost frame is closed by a token. -/
def Machine.close? (stack : List Frame) (t : Token) : Option Machine :=
  match stack, t with
  | .array xs :: stack, .closeArray => complete? stack (.array xs.reverse)
  | .object ms :: stack, .closeObject => complete? stack (.object ms.reverse)
  | _, _ => none

/-- Read one token. -/
def Machine.step (m : Machine) (t : Token) : Option Machine :=
  match m.expected, t with
  | .value, t => begin? m.stack t
  | .firstElement, .closeArray => close? m.stack .closeArray
  | .firstElement, t => begin? m.stack t
  | .firstKey, .closeObject => close? m.stack .closeObject
  | .firstKey, .string k => key? m.stack k
  | .key, .string k => key? m.stack k
  | .colon, .colon => some ⟨m.stack, .value⟩
  | .separator, .comma =>
    match m.stack with
    | .array _ :: _ => some ⟨m.stack, .value⟩
    | .object _ :: _ => some ⟨m.stack, .key⟩
    | _ => none
  | .separator, t => close? m.stack t
  | _, _ => none

/-- The draft that a list of tokens spells. -/
def ofTokens? (ts : List Token) : Option Draft := do
  let m ← ts.foldlM Machine.step ⟨[], .value⟩
  match m.expected with
  | .nothing v => some v
  | _ => none

/-- The draft that a text spells. -/
def read? (text : String) : Option Draft := Token.scan text.toList >>= ofTokens?

/-! ### Values -/

mutual

/-- The value of a draft with at most `depth` arrays and objects inside each other. -/
def toJson? (depth : Nat) : Draft → Option Json
  | .scalar s => s.map .scalar
  | .array xs =>
    match depth with
    | 0 => none
    | depth + 1 => (elements? depth xs).map .array
  | .object ms =>
    match depth with
    | 0 => none
    | depth + 1 => (members? depth ms).map fun ms => .object (Members.ofList ms)

/-- The values of the elements of an array. -/
def elements? (depth : Nat) : List Draft → Option (List Json)
  | [] => some []
  | x :: xs => do
    let v ← x.toJson? depth
    let vs ← elements? depth xs
    some (v :: vs)

/-- The values of the members of an object. -/
def members? (depth : Nat) : List (Option String × Draft) → Option (List (String × Json))
  | [] => some []
  | (key, x) :: ms => do
    let k ← key
    let v ← x.toJson? depth
    let vs ← members? depth ms
    some ((k, v) :: vs)

end

mutual

/-- A value is its own draft. -/
def ofJson : Json → Draft
  | .scalar s => .scalar (some s)
  | .array xs => .array (ofElements xs)
  | .object ms => .object (ofMembers ms)

/-- The drafts of the elements of an array. -/
def ofElements : List Json → List Draft
  | [] => []
  | x :: xs => ofJson x :: ofElements xs

/-- The drafts of the members of an object. -/
def ofMembers : List (String × Json) → List (Option String × Draft)
  | [] => []
  | (k, x) :: ms => (some k, ofJson x) :: ofMembers ms

end

end Draft

/-- The number of arrays and objects inside each other that a text may have. -/
def nestingLimit : Nat := 127

/-- The value that a text spells, with a bound on its nesting. -/
def readWithin? (depth : Nat) (text : String) : Option Json :=
  Draft.read? text >>= (·.toJson? depth)

/-- The value that a text spells. -/
def read? (text : String) : Option Json := readWithin? nestingLimit text

end QueryFilter.Json
