import RecordSchema.Docs.Registry
import RecordSchema.Generation.Path
import RecordSchema.Schema.PathWalk

/-!
# Documentation overlay

Puts the descriptions of a registry on the structs and fields of a graph.  A struct is described at
the path that leads to it, a field at its output path; where several paths lead to one struct, the
last one that has a description counts.
-/

namespace RecordSchema.Docs

open Generation (outputPath)
open Schema (Field Graph PathWalk Struct StructId)

/-- The entry of a path, if it has a description. -/
def DocRegistry.described? (r : DocRegistry) (path : String) : Option DocEntry :=
  (r.entry? path).filter (!·.description.isEmpty)

def describeField (r : DocRegistry) (path : String) (f : Field) : Field :=
  match r.described? (outputPath path f) with
  | some e => { f with description := e.description, markdownDescription := e.markdown }
  | none => f

def describeStruct (r : DocRegistry) (path : String) (s : Struct) : Struct :=
  let s := { s with fields := s.fields.map (describeField r path) }
  match r.described? path with
  | some e => { s with description := e.description, markdownDescription := e.description }
  | none => s

/-- The walk over structs with the paths that lead to them. -/
def structWalk (g : Graph) : PathWalk (StructId × String) where
  path := Prod.snd
  below := fun (id, path) =>
    (g.fieldsAt id).filterMap fun f => f.nestedTarget?.map (·, outputPath path f)

/-- The structs below a root with the paths that lead to them, the root first. -/
def overlayVisits (g : Graph) (root : StructId) (path : String) : List (StructId × String) :=
  (structWalk g).visits (g.size + 1) [(root, path)]

def DocRegistry.apply (r : DocRegistry) (g : Graph) (root : StructId) (rootPath : String) : Graph :=
  let path := Text.trim rootPath
  if r.isEmpty || path.isEmpty then g
  else
    (overlayVisits g root path).foldl (fun g v => g.modify v.1 (describeStruct r v.2)) g

end RecordSchema.Docs
