import RecordSchema.Schema.Field

/-!
# Structs

A struct is what a record becomes in the generated schema.  Two patterns of records are told apart:
a value with attributes, which is taken apart in the structs that use it, and an element that is
only there or not.
-/

namespace RecordSchema.Schema

/-- An attribute of a value with attributes. -/
structure AttributeInfo where
  name : String
  xmlName : String
  ty : ScalarKind
  validValues : List String := []
deriving DecidableEq, Repr

/-- Character data with nothing but attributes beside it. -/
structure ValueWithUnit where
  /-- The declared name of the character data. -/
  valueField : String
  valueType : ScalarKind
  attributes : List AttributeInfo
deriving DecidableEq, Repr

inductive StructPattern where
  | none
  | valueWithUnit (pattern : ValueWithUnit)
  | presenceOnly
deriving DecidableEq, Repr

structure Struct where
  name : String
  package : String
  /-- The element the struct is written as when it is the root of a document. -/
  element : Option String := none
  fields : List Field := []
  pattern : StructPattern := .none
  isTopLevel : Bool := false
  /-- Why the struct is left out of the output, if it is. -/
  exclusion : Option String := none
  description : String := ""
  markdownDescription : String := ""
deriving DecidableEq, Repr

namespace Struct

def isExcluded (s : Struct) : Bool := s.exclusion.isSome

def valueWithUnit? (s : Struct) : Option ValueWithUnit :=
  match s.pattern with
  | .valueWithUnit pattern => some pattern
  | _ => none

def isPresenceOnly (s : Struct) : Bool := s.pattern == .presenceOnly

def hasFlattenMarkers (s : Struct) : Bool := s.fields.any Field.isFlattenMarker

/-- The first field with an output name. -/
def field? (s : Struct) (outputName : String) : Option Field :=
  s.fields.find? (·.outputName == outputName)

end Struct

end RecordSchema.Schema
