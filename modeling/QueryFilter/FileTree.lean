import QueryFilter.Text.Bytes

/-!
# File trees

The files and folders below a working folder. A path is followed part by part: an empty part and
`.` stay, `..` goes up, and any other part has to be a folder, except the last one. Names have at
most 255 bytes and whole paths at most 4095.
-/

namespace QueryFilter

/-- What lies at a place. -/
inductive FileTree.Node
  | file (content : ByteArray)
  | folder

/-- Places, as lists of names from the working folder, with what lies there. -/
structure FileTree where
  nodes : List (List String × FileTree.Node)

namespace FileTree

/-- The working folder without anything in it. -/
def empty : FileTree := ⟨[]⟩

/-- What lies at a place. -/
def node? (t : FileTree) (place : List String) : Option Node := t.nodes.lookup place

/-- Whether a folder lies at a place. -/
def Node.isFolder : Node → Bool
  | file _ => false
  | folder => true

/-- Whether a place is a folder. The working folder, those above it and the top one are. -/
def isFolder (t : FileTree) (place : List String) : Bool :=
  place.all (· == "..") || place == ["/"] || (t.node? place).any Node.isFolder

/-- Put a node at a place, in the place of what lies there. -/
def put (t : FileTree) (place : List String) (n : Node) : FileTree :=
  ⟨t.nodes.filter (fun p => p.1 != place) ++ [(place, n)]⟩

/-- The place above. -/
def parent (place : List String) : List String :=
  match place.getLast? with
  | none | some ".." => place ++ [".."]
  | some "/" => place
  | _ => place.dropLast

/-- Go from a place to the folder that a part of a path names. -/
def enter? (t : FileTree) (place : List String) (part : String) : Option (List String) :=
  if part = "" ∨ part = "." then some place
  else if part = ".." then some (parent place)
  else if t.isFolder (place ++ [part]) then some (place ++ [part])
  else none

/-- Whether a file may have a name. -/
def isFileName (name : String) : Bool :=
  name != "" && name != "." && name != ".." && name.utf8ByteSize ≤ 255 &&
    !name.toList.contains '\x00'

/-- Whether a path is short enough to be followed. -/
def isPath (path : String) : Bool := path.utf8ByteSize ≤ 4095

/-- The parts of a path. -/
def parts (path : List Char) : List String :=
  match path with
  | [] => [""]
  | c :: cs =>
    if c = '/' then "" :: parts cs
    else match parts cs with
      | p :: ps => (String.ofList (c :: p.toList)) :: ps
      | [] => [String.ofList [c]]

/-- The path of what has a name in a folder. -/
def joinPath (folder name : String) : String :=
  if folder = "" ∨ folder.toList.getLast? = some '/' then folder ++ name
  else folder ++ "/" ++ name

/-- The place of a file by its path. -/
def locate? (t : FileTree) (path : String) : Option (List String) := do
  guard (isPath path)
  let ps := parts path.toList
  let start := if ps.head? = some "" then ["/"] else []
  let folder ← ps.dropLast.foldlM t.enter? start
  let name ← ps.getLast?
  if isFileName name then some (folder ++ [name]) else none

/-- Write a file; none when its folder does not exist or a folder is in its place. -/
def write? (t : FileTree) (path : String) (content : ByteArray) : Option FileTree := do
  let place ← t.locate? path
  if t.isFolder place then none else some (t.put place (.file content))

/-- What lies in a folder, by name; none when there is no such folder. -/
def list? (t : FileTree) (folder : String) : Option (List (String × Node)) :=
  if t.isFolder [folder] then
    some <| t.nodes.filterMap fun (place, n) =>
      match place with
      | [parent, name] => if parent = folder then some (name, n) else none
      | _ => none
  else none

/-- What lies in a folder as it is listed: the names are bytes, which need not be a text. -/
abbrev Listing := List (List UInt8 × Node)

/-- The listing of a folder; none when there is no such folder. -/
def listing? (t : FileTree) (folder : String) : Option Listing :=
  (t.list? folder).map fun entries => entries.map (Prod.map Text.bytes id)

/-- Make a folder if nothing is in its place. -/
def makeFolder (t : FileTree) (folder : String) : FileTree :=
  if t.isFolder [folder] || (t.node? [folder]).isSome then t else t.put [folder] .folder

/-- The text of a file; none for a folder and for bytes that are no UTF-8 text. -/
def Node.text? : Node → Option String
  | .file content => String.fromUTF8? content
  | .folder => none

end FileTree

end QueryFilter
