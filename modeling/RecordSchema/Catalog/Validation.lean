import RecordSchema.Catalog.Basic

/-!
# Catalog validation

A catalog is valid when every record reference in it is declared and every field can be kept in a
document the way its tag says.  The first fault in declaration order is reported.
-/

namespace RecordSchema

/-- Why a tag does not fit its field. -/
inductive TagFault where
  | secondCharData
  | embeddedTag
  /-- Only scalars fit into an attribute or character data. -/
  | notScalar (node : NodeKind) (kind : String)
deriving DecidableEq, Repr

def TagFault.message : TagFault → String
  | secondCharData => "record already has a character data field"
  | embeddedTag => "embedded fields carry no tag"
  | notScalar node kind =>
    let place := match node with
      | .attr => "an attribute"
      | .charData => "character data"
      | _ => "an element"
    s!"{place} cannot hold a {kind}"

/-- A fault of a catalog. A record declared in place is called by the path that leads to it. -/
inductive SchemaError where
  | typeNotFound (name record field : String)
  | duplicateField (record field : String)
  | invalidTag (record field : String) (fault : TagFault)
deriving DecidableEq, Repr

def SchemaError.message : SchemaError → String
  | typeNotFound name record field =>
    s!"record '{name}' referenced by field '{field}' of '{record}' not found"
  | duplicateField record field => s!"duplicate field '{field}' in record '{record}'"
  | invalidTag record field fault =>
    s!"invalid tag on field '{field}' of '{record}': {fault.message}"

namespace Validation

/-- What is wrong with a field's tag, taken by itself. -/
def tagFault? (f : FieldDecl) : Option TagFault :=
  if f.embedded then
    if f.tag.isSome then some .embeddedTag else none
  else
    match f.node? with
    | some .attr =>
      if f.ty.scalar?.isNone then some (.notScalar .attr f.ty.kindName) else none
    | some .charData =>
      if f.ty.scalar?.isNone then some (.notScalar .charData f.ty.kindName) else none
    | _ => none

/-- Whether other fields of the record see the field as its character data. -/
def holdsCharData (f : FieldDecl) : Bool := f.exported && f.node? == some .charData

/-- Checks a field against the names before it and against an earlier character data field. -/
def checkField (label : String) (seen : List String) (hasCharData : Bool) (f : FieldDecl) :
    Except SchemaError Unit := do
  if f.name ∈ seen then throw (.duplicateField label f.name)
  if let some fault := tagFault? f then throw (.invalidTag label f.name fault)
  if hasCharData && holdsCharData f then throw (.invalidTag label f.name .secondCharData)

/-- The names a later field must not repeat: an empty name is no name. -/
def noteName (seen : List String) (name : String) : List String :=
  if name.isEmpty then seen else name :: seen

mutual

def checkFields (c : Catalog) (label : String) (seen : List String) (hasCharData : Bool) :
    List FieldDecl → Except SchemaError Unit
  | [] => .ok ()
  | f :: rest => do
    checkField label seen hasCharData f
    checkFieldType c label f
    checkFields c label (noteName seen f.name) (hasCharData || holdsCharData f) rest

def checkFieldType (c : Catalog) (label : String) : FieldDecl → Except SchemaError Unit
  | { name, ty, .. } => checkType c label name ty

def checkType (c : Catalog) (label field : String) : TypeExpr → Except SchemaError Unit
  | .scalar _ => .ok ()
  | .named name =>
    if c.contains name then .ok () else .error (.typeNotFound name label field)
  | .inline record => checkRecord c s!"{label}.{field}" record
  | .optional inner => checkType c label field inner
  | .list element => checkType c label field element

def checkRecord (c : Catalog) (label : String) : RecordDecl → Except SchemaError Unit
  | { fields, .. } => checkFields c label [] false fields

end

end Validation

namespace Catalog

/-- Checks the records in declaration order. -/
def validate (c : Catalog) : Except SchemaError Unit :=
  c.records.forM fun r => Validation.checkRecord c r.name r

end Catalog

end RecordSchema
