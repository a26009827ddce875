import RecordSchema.Docs.Registry
import RecordSchema.Yaml.Node

/-!
# Documentation files

Entries are written in YAML, under the key `entries` of a mapping.  A directory's files make up one
registry.
-/

namespace RecordSchema.Docs

/-- The entry in a mapping. What it does not say is empty, and unknown keys say nothing. -/
def DocEntry.ofNode (d : Yaml.Document) (node : Yaml.Node) : Yaml.Document.Reading DocEntry := do
  let fields ← d.fields ["path", "description", "reference"] node
  let text (key : String) : Yaml.Document.Reading String :=
    match fields.lookup key with
    | some value => d.text value
    | none => return ""
  return {
    path := ← text "path"
    description := ← text "description"
    reference := ← text "reference"
  }

/-- The entries in the mapping of a file, in order. -/
def entriesOfNode (d : Yaml.Document) (root : Yaml.Node) :
    Yaml.Document.Reading (List DocEntry) := do
  match (← d.fields ["entries"] root).lookup "entries" with
  | none => return []
  | some value => (← d.items value).mapM (DocEntry.ofNode d)

/-- The entries of a file's text. -/
def entriesOfText? (text : String) : Option (List DocEntry) := do
  let d ← Yaml.Document.ofText? text
  d.read? (entriesOfNode d)

namespace DocRegistry

/-- Adds the entries written in a file. -/
def addText (r : DocRegistry) (text source : String) : Except DocError Unit × DocRegistry :=
  match entriesOfText? text with
  | none => (.error (.parseFile source), r)
  | some entries => r.addEntries source entries

/-- Whether a directory's file holds documentation. -/
def isDocFile (name : String) : Bool :=
  [".yaml", ".yml"].any fun ext => name.endsWith ext && name.length > ext.length

def loadFrom (files : FileTree) (dir : String) (r : DocRegistry) :
    List String → Except DocError DocRegistry
  | [] => .ok r
  | name :: rest => do
    let path := FileTree.join dir name
    let text ← (files.read path).mapError (.unreadableFile path)
    match r.addText text path with
    | (.ok (), r) => loadFrom files dir r rest
    | (.error e, _) => .error e

/-- The registry of a directory's files in the order of their names; a directory that is not there
documents nothing. -/
def load (files : FileTree) (dir : String) : Except DocError DocRegistry :=
  match files.filesIn dir with
  | .error .notFound => .ok .empty
  | .error fault => .error (.unreadableDirectory dir fault)
  | .ok names =>
    loadFrom files dir .empty ((names.filter isDocFile).mergeSort fun a b => decide (a ≤ b))

end DocRegistry

end RecordSchema.Docs
