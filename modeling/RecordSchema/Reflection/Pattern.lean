import RecordSchema.Catalog.Basic
import RecordSchema.Schema.Struct

/-!
# Patterns

The patterns of records and fields, each read off the declaration alone.
-/

namespace RecordSchema.Reflection

open Schema (AttributeInfo FlagTokens StructPattern ValueWithUnit)

/-- Adds the fields to a pattern whose value may still be missing. Character data fills the value,
which has room for one; an element fits nowhere. -/
def collectValue (value : Option (String × ScalarKind)) (attributes : List AttributeInfo) :
    List FieldDecl → Option (Option (String × ScalarKind) × List AttributeInfo)
  | [] => some (value, attributes)
  | f :: rest =>
    match f.tag, f.ty.scalar? with
    | some { node := .charData, .. }, some kind =>
      if value.isSome then none else collectValue (some (f.name, kind)) attributes rest
    | some { node := .attr, name := xmlName, .. }, some kind =>
      collectValue value
        (attributes ++ [{ name := f.name, xmlName, ty := kind, validValues := f.validValues }]) rest
    | _, _ => none

/-- The fields that show in a document under their own record. -/
def ownSerialized (fields : List FieldDecl) : List FieldDecl :=
  fields.filter fun f => f.isSerialized && !f.embedded

/-- A record of one scalar character data field and scalar attributes. Fields that are left out of
documents and embedded fields do not count. -/
def valueWithUnit? (fields : List FieldDecl) : Option ValueWithUnit :=
  match collectValue none [] (ownSerialized fields) with
  | some (some (valueField, valueType), attributes) => some { valueField, valueType, attributes }
  | _ => none

/-- A record without a field that can be seen. -/
def isPresenceOnly (fields : List FieldDecl) : Bool := !fields.any (·.exported)

def structPattern (fields : List FieldDecl) : StructPattern :=
  match valueWithUnit? fields with
  | some pattern => .valueWithUnit pattern
  | none => if isPresenceOnly fields then .presenceOnly else .none

/-- The names of text fields that hold a flag. -/
def flagNames : List String :=
  ["readonly", "ReadOnly", "Readonly", "autoport", "AutoPort", "Autoport", "managed", "Managed",
   "migratable", "Migratable"]

/-- The tokens of a flag that is written as text. -/
def flagTokens? (name : String) (ty : TypeExpr) : Option FlagTokens :=
  if ty.scalar? = some .string && flagNames.contains name then some ⟨"yes", "no"⟩ else none

end RecordSchema.Reflection
