import RecordSchema.FileTree
import RecordSchema.Text.Blank

/-!
# Documentation registries

Descriptions keyed by output path, each with the file it comes from.  A path is described once.
-/

namespace RecordSchema.Docs

structure DocEntry where
  path : String := ""
  description : String := ""
  /-- A link to more. -/
  reference : String := ""
deriving DecidableEq, Repr

/-- The description with its link. -/
def DocEntry.markdown (e : DocEntry) : String :=
  if e.reference.isEmpty then e.description
  else s!"{e.description}\n\nSee: <{e.reference}>"

inductive DocError where
  | unreadableDirectory (path : String) (fault : FileFault)
  | unreadableFile (path : String) (fault : FileFault)
  | parseFile (path : String)
  | missingPath (path : String) (index : Nat)
  | duplicatePath (entry path : String)
deriving DecidableEq, Repr

def DocError.message : DocError → String
  | unreadableDirectory path fault => s!"reading doc directory {path}: {fault.message}"
  | unreadableFile path fault => s!"reading doc file {path}: {fault.message}"
  | parseFile path => s!"parsing doc file {path}"
  | missingPath path index => s!"doc file {path} entry {index} is missing a path"
  | duplicatePath entry path => s!"duplicate documentation entry for {entry} (file {path})"

/-- An entry and its file. -/
structure Documented where
  entry : DocEntry
  source : String
deriving DecidableEq, Repr

/-- Entries in the order of their paths. -/
structure DocRegistry where
  items : List Documented := []
deriving DecidableEq, Repr

namespace DocRegistry

def empty : DocRegistry := {}

def size (r : DocRegistry) : Nat := r.items.length

def isEmpty (r : DocRegistry) : Bool := r.items.isEmpty

def paths (r : DocRegistry) : List String := r.items.map (·.entry.path)

def find? (r : DocRegistry) (path : String) : Option Documented :=
  r.items.find? (·.entry.path == path)

def entry? (r : DocRegistry) (path : String) : Option DocEntry := (r.find? path).map (·.entry)

def source? (r : DocRegistry) (path : String) : Option String := (r.find? path).map (·.source)

def contains (r : DocRegistry) (path : String) : Bool := (r.find? path).isSome

/-- Puts an item before the first one with a greater path. -/
def place (d : Documented) : List Documented → List Documented
  | [] => [d]
  | first :: rest =>
    if d.entry.path < first.entry.path then d :: first :: rest else first :: place d rest

def insert (r : DocRegistry) (entry : DocEntry) (source : String) : Except DocError DocRegistry :=
  if r.contains entry.path then .error (.duplicatePath entry.path source)
  else .ok ⟨place ⟨entry, source⟩ r.items⟩

/-- Adds the entries of a file from the one at `index` on. Their paths count without the blanks
around them; at the first fault the entries before it stay. -/
def addFrom (source : String) (index : Nat) (r : DocRegistry) :
    List DocEntry → Except DocError Unit × DocRegistry
  | [] => (.ok (), r)
  | entry :: rest =>
    let entry := { entry with path := Text.trim entry.path }
    if entry.path.isEmpty then (.error (.missingPath source index), r)
    else
      match r.insert entry source with
      | .error e => (.error e, r)
      | .ok r' => r'.addFrom source (index + 1) rest

def addEntries (r : DocRegistry) (source : String) (entries : List DocEntry) :
    Except DocError Unit × DocRegistry :=
  r.addFrom source 0 entries

end DocRegistry

end RecordSchema.Docs
