import RecordSchema.Catalog.Basic

/-!
# Record bodies

What a record's declaration asks for, in declaration order: a field that shows in documents, or the
fields of an embedded record.  Records embedded in place are opened up; fields that show nothing are
left out.
-/

namespace RecordSchema

/-- What matters of a field's type once the optional wrappers are gone. -/
inductive Shape where
  | scalar (kind : ScalarKind)
  | scalarList (kind : ScalarKind)
  | nestedList
  | record (name : String)
  | recordList (name : String)
  /-- A record declared in place, or a list of such. -/
  | anonymous
deriving DecidableEq, Repr

namespace Shape

def isList : Shape → Bool
  | scalarList _ | nestedList | recordList _ => true
  | _ => false

/-- The record a shape refers to. -/
def reference? : Shape → Option String
  | record name | recordList name => some name
  | _ => none

end Shape

def TypeExpr.shape (ty : TypeExpr) : Shape :=
  match ty.stripOptional with
  | .scalar kind => .scalar kind
  | .named name => .record name
  | .list element =>
    match element.stripOptional with
    | .scalar kind => .scalarList kind
    | .list _ => .nestedList
    | .named name => .recordList name
    | _ => .anonymous
  | _ => .anonymous

namespace Reflection

inductive BodyItem where
  | field (decl : FieldDecl) (tag : Tag) (shape : Shape)
  /-- The fields of a record of the catalog. -/
  | embed (record : String)

structure BodyStep where
  /-- The types of the records in place around the item, outermost first. -/
  within : List String := []
  item : BodyItem

namespace BodyStep

def inside (label : String) (s : BodyStep) : BodyStep := { s with within := label :: s.within }

/-- The record a step refers to. -/
def reference? (s : BodyStep) : Option String :=
  match s.item with
  | .field _ _ shape => shape.reference?
  | .embed record => some record

end BodyStep

/-- The step of a field that is not embedded, if it shows in documents. -/
def fieldSteps (f : FieldDecl) : List BodyStep :=
  match f.tag with
  | none => []
  | some tag =>
    if tag.node = .ignored then []
    else
      match f.ty.shape with
      | .anonymous => []
      | shape => [{ item := .field f tag shape }]

mutual

def bodySteps : List FieldDecl → List BodyStep
  | [] => []
  | f :: rest => declSteps f ++ bodySteps rest

def declSteps : FieldDecl → List BodyStep
  | { name, ty, tag, exported, embedded, validValues } =>
    if exported then
      if embedded then embedSteps ty.display ty
      else fieldSteps { name, ty, tag, exported, embedded, validValues }
    else []

/-- The steps of an embedded type; scalars and lists have no fields to give. -/
def embedSteps (label : String) : TypeExpr → List BodyStep
  | .optional inner => embedSteps label inner
  | .named name => [{ item := .embed name }]
  | .inline record => (recordSteps record).map (.inside label)
  | _ => []

def recordSteps : RecordDecl → List BodyStep
  | { fields, .. } => bodySteps fields

end

end Reflection

end RecordSchema
