import RecordSchema.Generation.Run
import RecordSchema.Schema.Export

/-!
# Export of runs

What a run has found, as JSON values.
-/

namespace RecordSchema.Generation

/-- Texts, names and lists that say nothing are left out. -/
def FieldContext.toJson (c : FieldContext) : Json :=
  .obj
    ([("path", .str c.path),
      ("xml_path", .str c.xmlPath),
      ("optional", .bool c.optional),
      ("required", .bool c.required),
      ("computed", .bool c.computed),
      ("presence_boolean", .bool c.presenceBoolean),
      ("string_to_bool", .bool c.stringToBool)] ++
     (if c.trueToken.isEmpty then [] else [("string_to_bool_true", .str c.trueToken)]) ++
     (if c.falseToken.isEmpty then [] else [("string_to_bool_false", .str c.falseToken)]) ++
     (c.flattenedAttribute.toList.map fun attr => ("flattened_attribute", .str attr)) ++
     (if c.validValues.isEmpty then [] else [("valid_values", .strings c.validValues)]))

def batchesToJson (batches : List (List FieldContext)) : Json :=
  .arr (batches.map fun b => .obj [("fields", .arr (b.map FieldContext.toJson))])

def Resource.toJson (r : Resource) : Json :=
  .obj [("name", .str r.name), ("record", .str r.record)]

def ResourceRoot.toJson (r : ResourceRoot) : Json :=
  .obj [("resource", r.resource.toJson), ("id", .num r.id), ("xml_root", .str r.xmlRoot)]

def Totals.toJson (t : Totals) : Json :=
  .obj
    [("structs", .num t.structs), ("top_level", .num t.topLevel), ("fields", .num t.fields),
     ("cycles", .num t.cycles), ("excluded", .num t.excluded)]

namespace Run

def toJson (r : Run) : Json :=
  .obj
    [("graph", r.graph.toJson),
     ("roots", .arr (r.roots.map ResourceRoot.toJson)),
     ("structs", .arr (r.structs.map .num)),
     ("totals", r.totals.toJson),
     ("batches", batchesToJson r.batches)]

/-- The totals of a run with the number of fields of each resource's struct. -/
def summary (r : Run) : Json :=
  let resource (root : ResourceRoot) : Json :=
    .obj
      [("name", .str root.resource.name), ("record", .str root.resource.record),
       ("xml_root", .str root.xmlRoot),
       ("fields", .num ((r.graph.get? root.id).elim 0 (·.fields.length)))]
  .obj
    [("totals", r.totals.toJson),
     ("resources", .arr (r.roots.map resource)),
     ("undocumented", .num r.batches.flatten.length),
     ("batches", .num r.batches.length)]

end Run

end RecordSchema.Generation
