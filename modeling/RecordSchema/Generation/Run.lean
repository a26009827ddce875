import RecordSchema.Catalog.Document
import RecordSchema.Catalog.Validation
import RecordSchema.Docs.Overlay
import RecordSchema.Generation.Coverage
import RecordSchema.Reflection.Walk

/-!
# Generation runs

A run validates a catalog, reflects every configured resource into one graph, marks what is left
out, records the paths, overlays the documentation and collects what is still undocumented.
-/

namespace RecordSchema.Generation

open Docs (DocRegistry)
open Reflection (ReflectError Reflector)
open Schema (Field Graph Struct StructId)

/-- A kind of resource: its name, where its paths start, and the record it is made from. -/
structure Resource where
  name : String
  record : String
deriving DecidableEq, Repr

/-- A struct, or one of its fields by output name, that is left out of the output. -/
structure Exclusion where
  record : String
  field : Option String := none
  reason : String
deriving DecidableEq, Repr

/-- The kinds of resources of the platform. -/
def defaultResources : List Resource :=
  [⟨"domain", "Domain"⟩, ⟨"network", "Network"⟩, ⟨"storage_pool", "StoragePool"⟩,
   ⟨"storage_volume", "StorageVolume"⟩]

structure Generator where
  resources : List Resource := defaultResources
  exclusions : List Exclusion := []
  docs : DocRegistry := .empty
  batchSize : Nat := defaultBatchSize

inductive GenerationError where
  | parse (source : ParseError)
  | schema (source : SchemaError)
  | unreadable (fault : FileFault)
  | resource (name : String) (source : ReflectError)
  | noResources
deriving DecidableEq, Repr

namespace GenerationError

def message : GenerationError → String
  | parse source => s!"catalog parse error: {source.message}"
  | schema source => s!"catalog error: {source.message}"
  | unreadable fault => s!"IO error: {fault.message}"
  | resource name _ => s!"reflecting {name}"
  | noResources => "configuration error: no resources configured"

end GenerationError

/-- The root of a resource: its struct and the element its documents start with. -/
structure ResourceRoot where
  resource : Resource
  id : StructId
  xmlRoot : String
deriving DecidableEq, Repr

def ResourceRoot.pathRoot (r : ResourceRoot) : PathRoot := ⟨r.id, ⟨r.resource.name, r.xmlRoot⟩⟩

structure Totals where
  structs : Nat := 0
  topLevel : Nat := 0
  fields : Nat := 0
  cycles : Nat := 0
  excluded : Nat := 0
deriving DecidableEq, Repr

def Totals.ofStructs (structs : List Struct) : Totals where
  structs := structs.length
  topLevel := structs.countP (·.isTopLevel)
  fields := (structs.flatMap (·.fields)).length
  cycles := (structs.flatMap (·.fields)).countP Field.isCycle
  excluded := structs.countP Struct.isExcluded

structure Run where
  graph : Graph
  /-- One root for each resource, in the order of the configuration. -/
  roots : List ResourceRoot
  /-- The structs of the output, in the order in which they are reached. -/
  structs : List StructId
  totals : Totals
  /-- The undocumented fields. -/
  batches : List (List FieldContext)
deriving DecidableEq, Repr

namespace Run

/-- The struct of a resource. -/
def root? (r : Run) (resource : String) : Option Struct :=
  (r.roots.find? (·.resource.name == resource)).bind (r.graph.get? ·.id)

def outputStructs (r : Run) : List Struct := r.structs.filterMap r.graph.get?

end Run

/-! ## Steps of a run -/

/-- Reflects a resource and marks its struct. -/
def reflectResource (r : Reflector) (resource : Resource) :
    Except GenerationError (ResourceRoot × Reflector) :=
  match r.reflect resource.record with
  | (.error e, _) => .error (.resource resource.name e)
  | (.ok id, r) =>
    let graph := r.graph.modify id fun s => { s with isTopLevel := true }
    let xmlRoot := ((graph.get? id).bind (·.element)).getD resource.name
    .ok (⟨resource, id, xmlRoot⟩, { r with graph })

def reflectResources (r : Reflector) : List Resource →
    Except GenerationError (List ResourceRoot × Reflector)
  | [] => .ok ([], r)
  | resource :: rest => do
    let (root, r) ← reflectResource r resource
    let (roots, r) ← reflectResources r rest
    return (root :: roots, r)

/-- Marks the first field of an output name as left out. -/
def excludeField (name reason : String) : List Field → List Field
  | [] => []
  | f :: rest =>
    if f.outputName == name then { f with exclusion := some reason } :: rest
    else f :: excludeField name reason rest

/-- Marks a struct or field as left out; what is not in the graph cannot be. -/
def exclude (g : Graph) (e : Exclusion) : Graph :=
  match g.lookup e.record with
  | none => g
  | some id =>
    g.modify id fun s =>
      match e.field with
      | none => { s with exclusion := some e.reason }
      | some name => { s with fields := excludeField name e.reason s.fields }

namespace Generator

def run (config : Generator) (catalog : Catalog) : Except GenerationError Run := do
  if config.resources.isEmpty then throw .noResources
  catalog.validate.mapError .schema
  let (roots, reflector) ← reflectResources (.ofCatalog catalog) config.resources
  let graph := config.exclusions.foldl exclude reflector.graph
  let graph := assignRootPaths graph (roots.map ResourceRoot.pathRoot)
  let graph := roots.foldl (fun g r => config.docs.apply g r.id r.resource.name) graph
  let structs := graph.reached (roots.map (·.id))
  let undocumented := roots.flatMap fun r => collectFields graph r.pathRoot (some config.docs)
  return {
    graph, roots, structs
    totals := .ofStructs (structs.filterMap graph.get?)
    batches := buildBatches undocumented config.batchSize }

/-- Runs on the catalog written in a document. -/
def runDocument (config : Generator) (document : String) : Except GenerationError Run := do
  config.run (← (Catalog.parse document).mapError .parse)

/-- Runs on the catalog written in a file. -/
def runFile (config : Generator) (files : FileTree) (path : String) :
    Except GenerationError Run := do
  config.runDocument (← (files.read path).mapError .unreadable)

end Generator

end RecordSchema.Generation
