import RecordSchema.Schema.Graph
import RecordSchema.Text.SnakeCase

/-!
# Expansion

A field that refers to a value with attributes becomes a field for the value and one for each
attribute, so that an element `memory` with a unit shows as `memory` and `memory_unit`.
-/

namespace RecordSchema.Reflection

open Schema (AttributeInfo Field Graph ValueType ValueWithUnit)

/-- Stands between the name of a field and the name of an attribute taken from it. -/
def flattenSeparator : String := "_"

/-- The field of the value; it keeps the names and the optionality of the marker. -/
def valueField (marker : Field) (pattern : ValueWithUnit) : Field :=
  { marker with
    valueType := .ofScalar pattern.valueType
    isNested := false
    pattern := .flattenedValue }

/-- The field of an attribute. -/
def attributeField (marker : Field) (a : AttributeInfo) : Field where
  name := marker.name ++ a.name
  xmlName := marker.xmlName
  outputName := marker.outputName ++ flattenSeparator ++ Text.snakeCase a.xmlName
  sourceType := a.ty.name
  valueType := .ofScalar a.ty
  isAttr := true
  isPointer := marker.isPointer
  link := marker.link
  optionality := .optional
  preserveUserIntent := true
  omitEmpty := true
  pattern := .flattenedAttribute a.xmlName
  validValues := a.validValues

/-- The pattern a marker is taken apart by. -/
def expansion? (g : Graph) (f : Field) : Option ValueWithUnit :=
  if f.isFlattenMarker then (g.target? f).bind (·.valueWithUnit?) else none

def expandField (g : Graph) (f : Field) : List Field :=
  match expansion? g f with
  | some pattern => valueField f pattern :: pattern.attributes.map (attributeField f)
  | none => [f]

/-- Takes every marker apart that refers to a value with attributes. -/
def expand (g : Graph) (fields : List Field) : List Field := fields.flatMap (expandField g)

end RecordSchema.Reflection
