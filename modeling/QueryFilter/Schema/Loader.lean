import QueryFilter.FileTree
import QueryFilter.Log
import QueryFilter.Schema.Definition
import QueryFilter.Schema.Registry

/-!
# Schema files

A loader reads one definition from each file of a folder whose name ends in `.json`, in the order
of the names, and stops at the first bad one; what it read before stays. A schema is saved under
its type name.
-/

namespace QueryFilter

/-- The folder of the definitions and the schemas read so far. -/
structure Loader where
  folder : String
  schemas : List Entity
  deriving DecidableEq, Repr

namespace Loader

/-- A loader that has read nothing. -/
def start (folder : String) : Loader := ⟨folder, []⟩

/-- Add a schema. -/
def add (l : Loader) (e : Entity) : Loader := { l with schemas := l.schemas ++ [e] }

/-- Whether a file holds a definition, by the bytes of its name: `json` is what follows the last
dot, and something comes before it. -/
def isDefinitionName (name : List UInt8) : Bool :=
  (Text.bytes ".json").isSuffixOf name && 5 < name.length

/-- Whether a file holds a definition, by its name. -/
def isDefinitionFile (name : String) : Bool := isDefinitionName (Text.bytes name)

/-- The schema in a file. -/
def readSchema (source : String) (n : FileTree.Node) : Except SchemaError Entity :=
  match n.text? with
  | none => .error (.malformed source none .unreadableFile)
  | some text =>
    match Entity.Definition.ofText? text with
    | none => .error (.malformed source none .invalidJson)
    | some d => Entity.ofDefinition d

/-- Read files one after the other up to the first bad one. -/
def readAll (l : Loader) : FileTree.Listing → Except SchemaError Unit × Loader
  | [] => (.ok (), l)
  | (name, n) :: files =>
    match readSchema (FileTree.joinPath l.folder (Text.ofBytes name)) n with
    | .ok e => readAll (l.add e) files
    | .error e => (.error e, l)

/-- The files of a folder that hold definitions, in the order of their names. -/
def definitionFiles (entries : FileTree.Listing) : FileTree.Listing :=
  Text.sortByKey (·.1) (entries.filter fun f => isDefinitionName f.1)

/-- What a run of the loader gives: an error or nothing, the loader after it, and log records. -/
structure Loaded where
  result : Except SchemaError Unit
  loader : Loader
  records : List Log.Record

/-- Read all definitions in the folder, of which there is a listing if it can be read. -/
def loadAll (l : Loader) : Option FileTree.Listing → Loaded
  | none => ⟨.error (.malformed l.folder none .unreadableDirectory), l, []⟩
  | some entries =>
    let files := definitionFiles entries
    match l.readAll files with
    | (.ok (), l) =>
      ⟨.ok (), l, [Log.Event.schemasLoaded.record
        [("count", toString files.length), ("schema_dir", l.folder)]]⟩
    | (.error e, l) => ⟨.error e, l, []⟩

/-- Read all definitions in the folder of a file tree. -/
def load (l : Loader) (t : FileTree) : Loaded := l.loadAll (t.listing? l.folder)

/-- The path under which a schema is saved; a name that starts at the top folder is a path of its
own. -/
def pathOf (l : Loader) (e : Entity) : String :=
  let file := e.name ++ ".json"
  if file.toList.head? = some '/' then file else FileTree.joinPath l.folder file

/-- The text that is saved for a schema. -/
def fileText (e : Entity) : String := e.definition.toJson.pretty

/-- Save a schema. The folder is made first, also when the file then cannot be written. -/
def save (l : Loader) (e : Entity) (t : FileTree) : Except SchemaError String × FileTree :=
  let t := t.makeFolder l.folder
  let path := l.pathOf e
  match t.write? path (fileText e).toUTF8 with
  | some t => (.ok path, t)
  | none => (.error (.malformed path none .unwritableFile), t)

/-- The registry of the schemas read. -/
def toRegistry (l : Loader) : Except SchemaError Registry := Registry.ofEntities l.schemas

end Loader

end QueryFilter
