import RecordSchema.Reflection.Body
import RecordSchema.Reflection.Error
import RecordSchema.Reflection.Expansion
import RecordSchema.Reflection.Guard
import RecordSchema.Reflection.Override
import RecordSchema.Reflection.Pattern

/-!
# Reflection

Reflecting a record adds a struct for it and for every record it refers to, each once.  A struct
enters the graph before its fields are known, so that a record that leads back to it finds it there,
and a record whose analysis fails leaves nothing behind.
-/

namespace RecordSchema.Reflection

open Schema (Field Graph Struct StructId)

/-- What a walk works on: the structs so far and the records under analysis. -/
structure WalkState where
  graph : Graph := .empty
  guard : CycleGuard := .empty
deriving DecidableEq, Repr

/-- A computation on the state of a walk; a failure keeps the state it has reached. -/
abbrev Walk := EStateM ReflectError WalkState

/-- Runs a walk with a name under analysis; the name leaves the guard on every exit. -/
def inFrame {α : Type} (name : String) (w : Walk α) : Walk α := fun s =>
  match w { s with guard := s.guard.push name } with
  | .ok a s => .ok a { s with guard := s.guard.popped }
  | .error e s => .error e { s with guard := s.guard.popped }

/-! ## Fields -/

/-- What a field's declaration says without following its type. -/
def fieldBase (decl : FieldDecl) (tag : Tag) (shape : Shape) : Field :=
  let isOptional := tag.omitEmpty || decl.ty.isOptional || shape.isList
  { name := decl.name
    xmlName := tag.name
    outputName := Text.snakeCase decl.name
    sourceType := decl.ty.display
    isAttr := tag.isAttribute
    omitEmpty := tag.omitEmpty
    isPointer := decl.ty.isOptional
    validValues := decl.validValues
    valueType := if shape.isList then .list else .string
    isList := shape.isList
    optionality := if isOptional then .optional else .required
    preserveUserIntent := isOptional }

/-- A scalar field; a flag written as text shows as a boolean. -/
def scalarField (decl : FieldDecl) (base : Field) (kind : ScalarKind) : Field :=
  match flagTokens? decl.name decl.ty with
  | some tokens => { base with stringToBool := some tokens, valueType := .bool }
  | none => { base with valueType := .ofScalar kind }

/-- Where a reference to a record leads. -/
inductive Referent where
  /-- Back to a record under analysis. -/
  | cycle (trace : String)
  | struct (id : StructId) (target : Option Struct)

/-- A field of a record, by the pattern of its struct. -/
def recordField (base : Field) : Referent → Field
  | .cycle trace => { base with link := .cycle trace }
  | .struct id target =>
    let linked := { base with link := .struct id }
    match target.map Struct.pattern with
    | some .presenceOnly => { linked with valueType := .bool, pattern := .presenceBoolean }
    | some (.valueWithUnit _) =>
      { linked with valueType := .object, pattern := .flattenValueWithUnit }
    | _ => { linked with valueType := .object, isNested := true }

/-- A list of records. -/
def recordListField (base : Field) : Referent → Field
  | .cycle trace => { base with link := .cycle trace }
  | .struct id _ => { base with isNested := true, elementType := some .object, link := .struct id }

/-- The field of a declaration whose reference, if it has one, leads to `referent`. -/
def fieldOf (decl : FieldDecl) (tag : Tag) (shape : Shape) (referent : Option Referent) : Field :=
  let base := fieldBase decl tag shape
  match shape, referent with
  | .scalar kind, _ => scalarField decl base kind
  | .scalarList kind, _ => { base with elementType := some (.ofScalar kind) }
  | .nestedList, _ => { base with elementType := some .list }
  | .record _, some referent => recordField base referent
  | .recordList _, some referent => recordListField base referent
  | _, _ => base

/-- Follows a reference with `visit`, unless it leads back. -/
def refer (visit : String → Walk StructId) (name : String) : Walk Referent := do
  let guard := (← get).guard
  if guard.contains name then return .cycle (guard.trace name)
  let id ← visit name
  return .struct id ((← get).graph.get? id)

/-- Analyses a field, reflecting the record it refers to with `visit`. -/
def analyze (visit : String → Walk StructId) (decl : FieldDecl) (tag : Tag) (shape : Shape) :
    Walk Field :=
  match shape.reference? with
  | none => pure (fieldOf decl tag shape none)
  | some name => (fun referent => fieldOf decl tag shape (some referent)) <$> refer visit name

/-! ## Bodies -/

/-- Puts an error into the context of a step of the record `owner`. -/
def BodyStep.context (owner : String) (s : BodyStep) (e : ReflectError) : ReflectError :=
  let inner :=
    match s.item with
    | .field decl _ _ => .field owner decl.name e
    | .embed record => .embedded owner record e
  s.within.foldr (fun label e => .embedded owner label e) inner

/-- The fields a step gives. An embedded record gives the fields its struct has by now. -/
def walkStep (visit : String → Walk StructId) (s : BodyStep) : Walk (List Field) :=
  match s.item with
  | .field decl tag shape => List.singleton <$> analyze visit decl tag shape
  | .embed record => do
    let id ← visit record
    return (← get).graph.fieldsAt id

def walkBody (visit : String → Walk StructId) (owner : String) :
    List BodyStep → Walk (List Field)
  | [] => pure []
  | s :: rest => do
    let fields ← EStateM.adaptExcept (s.context owner) (walkStep visit s)
    return fields ++ (← walkBody visit owner rest)

/-- The last touches on the fields of a struct: overrides, and the expansion of markers with
overrides again. -/
def finishFields (g : Graph) (owner : String) (fields : List Field) : List Field :=
  let overridden := applyOverrides owner fields
  if overridden.any Field.isFlattenMarker then applyOverrides owner (expand g overridden)
  else overridden

/-! ## Records -/

/-- The struct of a record whose fields are not known yet. -/
def placeholder (c : Catalog) (r : RecordDecl) : Struct where
  name := r.name
  package := if r.package.isEmpty then c.package else r.package
  element := r.element
  pattern := structPattern r.fields

/-- Reflects a declaration, the records it refers to with `visit`. If that fails the graph is cut
back to where it was. -/
def walkRecord (c : Catalog) (visit : String → Walk StructId) (r : RecordDecl) :
    Walk StructId := fun s =>
  if r.isAnonymous then .error .anonymous s
  else
    match s.graph.lookup r.name with
    | some id => .ok id s
    | none =>
      let (id, graph) := s.graph.insert (placeholder c r)
      match inFrame r.name (walkBody visit r.name (bodySteps r.fields)) { s with graph } with
      | .error e s' => .error e { s' with graph := s'.graph.truncate s.graph.size }
      | .ok fields s' =>
        let fill t := { t with fields := finishFields s'.graph r.name fields }
        .ok id { s' with graph := s'.graph.modify id fill }

/-- Reflects a record of the catalog, unless its struct is in the graph already. At most `room` more
records can come under analysis; as each is there once, a catalog never needs more room than it has
records. -/
def visit (c : Catalog) (room : Nat) (name : String) : Walk StructId := fun s =>
  match s.graph.lookup name with
  | some id => .ok id s
  | none =>
    match room, c.find? name with
    | room + 1, some r => walkRecord c (visit c room) r s
    | _, _ => .error (.unknownRecord name) s

/-! ## Reflectors -/

/-- A catalog with the structs reflected from it so far. -/
structure Reflector extends WalkState where
  catalog : Catalog

namespace Reflector

/-- A reflector that has reflected nothing. -/
def ofCatalog (catalog : Catalog) : Reflector := { catalog }

def run (r : Reflector) (w : Walk StructId) : Except ReflectError StructId × Reflector :=
  match w r.toWalkState with
  | .ok id s => (.ok id, { r with toWalkState := s })
  | .error e s => (.error e, { r with toWalkState := s })

/-- Reflects a record of the catalog. -/
def reflect (r : Reflector) (name : String) : Except ReflectError StructId × Reflector :=
  r.run (visit r.catalog r.catalog.size name)

/-- Reflects a declaration that need not be in the catalog. -/
def reflectRecord (r : Reflector) (decl : RecordDecl) : Except ReflectError StructId × Reflector :=
  r.run (walkRecord r.catalog (visit r.catalog r.catalog.size) decl)

/-- Reflects the record a type refers to. -/
def reflectType (r : Reflector) (ty : TypeExpr) : Except ReflectError StructId × Reflector :=
  match ty.stripOptional with
  | .named name => r.reflect name
  | .inline _ => (.error .anonymous, r)
  | other => (.error (.notARecord other.display other.kindName), r)

end Reflector

end RecordSchema.Reflection
