import RecordSchema.Docs.Registry
import RecordSchema.Generation.Path
import RecordSchema.Schema.PathWalk

/-!
# Documentation coverage

The fields below a resource that no registry describes, each with what is needed to describe it, in
batches.
-/

namespace RecordSchema.Generation

open Docs (DocRegistry)
open Schema (Field Graph PathWalk StructId)

def defaultBatchSize : Nat := 20

/-- What is needed to describe a field. -/
structure FieldContext where
  path : String
  xmlPath : String
  optional : Bool
  required : Bool
  computed : Bool
  presenceBoolean : Bool
  stringToBool : Bool
  trueToken : String
  falseToken : String
  flattenedAttribute : Option String
  validValues : List String
deriving DecidableEq, Repr

def FieldContext.ofField (f : Field) (p : Position) : FieldContext where
  path := p.path
  xmlPath := p.xmlPath
  optional := f.isOptional
  required := f.isRequired
  computed := f.isComputed
  presenceBoolean := f.isPresenceBoolean
  stringToBool := f.stringToBool.isSome
  trueToken := f.stringToBool.elim "" (·.trueToken)
  falseToken := f.stringToBool.elim "" (·.falseToken)
  flattenedAttribute := f.flattenedAttribute?
  validValues := f.validValues

/-- A field where it is reached. -/
structure PlacedField where
  field : Field
  position : Position

namespace PlacedField

def context (p : PlacedField) : FieldContext := .ofField p.field p.position

def isDocumented (registry : Option DocRegistry) (p : PlacedField) : Bool :=
  registry.any (·.contains p.position.path)

end PlacedField

/-- The fields of a struct that is reached at a position. -/
def placedFields (g : Graph) (id : StructId) (p : Position) : List PlacedField :=
  (g.fieldsAt id).map fun f => ⟨f, p.below f⟩

/-- The walk over fields, those of nested structs being below the fields that open them. -/
def fieldWalk (g : Graph) : PathWalk PlacedField where
  path p := p.position.path
  below p := p.field.nestedTarget?.elim [] fun id => placedFields g id p.position

/-- The fields that are reached from a root. -/
def reachedFields (g : Graph) (root : PathRoot) : List PlacedField :=
  (fieldWalk g).visits g.size (placedFields g root.id root.position)

/-- The fields reached from a root whose paths are not documented. A documented field is left out,
not what is below it. -/
def collectFields (g : Graph) (root : PathRoot) (registry : Option DocRegistry) :
    List FieldContext :=
  ((reachedFields g root).filter (!·.isDocumented registry)).map PlacedField.context

/-- The contexts in runs of `extra + 1`, the last one perhaps shorter. -/
def chunks (extra : Nat) : List FieldContext → List (List FieldContext)
  | [] => []
  | c :: rest => (c :: rest.take extra) :: chunks extra (rest.drop extra)
termination_by contexts => contexts.length
decreasing_by
  simp only [List.length_drop, List.length_cons]
  omega

/-- The contexts in the order of their paths, in batches of `size`; a batch holds at least one. -/
def buildBatches (contexts : List FieldContext) (size : Nat) : List (List FieldContext) :=
  chunks (size - 1) (contexts.mergeSort fun a b => decide (a.path ≤ b.path))

end RecordSchema.Generation
