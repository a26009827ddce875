import RecordSchema.Json
import RecordSchema.Schema.Graph

/-!
# Export of structs

Structs and fields as JSON values, for the tools that read a generated schema.
-/

namespace RecordSchema.Schema

def Link.toJson : Link → Json
  | none => .obj [("kind", .str "none")]
  | struct id => .obj [("kind", .str "struct"), ("id", .num id)]
  | cycle trace => .obj [("kind", .str "cycle"), ("trace", .str trace)]

def FieldPattern.toJson : FieldPattern → Json
  | plain => .obj [("kind", .str "plain")]
  | flattenValueWithUnit => .obj [("kind", .str "flatten_value_with_unit")]
  | presenceBoolean => .obj [("kind", .str "presence_boolean")]
  | flattenedValue => .obj [("kind", .str "flattened_value")]
  | flattenedAttribute attr => .obj [("kind", .str "flattened_attribute"), ("attribute", .str attr)]

def FlagTokens.toJson (t : FlagTokens) : Json :=
  .obj [("true_token", .str t.trueToken), ("false_token", .str t.falseToken)]

def Field.toJson (f : Field) : Json :=
  .obj
    [("name", .str f.name),
     ("xml_name", .str f.xmlName),
     ("output_name", .str f.outputName),
     ("source_type", .str f.sourceType),
     ("value_type", .str f.valueType.name),
     ("element_type", .ofOption (.str ·.name) f.elementType),
     ("is_attr", .bool f.isAttr),
     ("is_pointer", .bool f.isPointer),
     ("is_list", .bool f.isList),
     ("is_nested", .bool f.isNested),
     ("link", f.link.toJson),
     ("optionality", .str f.optionality.name),
     ("plan_hint", .ofOption (.str ·.name) f.planHint),
     ("preserve_user_intent", .bool f.preserveUserIntent),
     ("omit_empty", .bool f.omitEmpty),
     ("pattern", f.pattern.toJson),
     ("string_to_bool", .ofOption FlagTokens.toJson f.stringToBool),
     ("valid_values", .strings f.validValues),
     ("path", .str f.path),
     ("xml_path", .str f.xmlPath),
     ("description", .str f.description),
     ("markdown_description", .str f.markdownDescription),
     ("exclusion", .ofOption .str f.exclusion)]

def AttributeInfo.toJson (a : AttributeInfo) : Json :=
  .obj
    [("name", .str a.name), ("xml_name", .str a.xmlName), ("ty", .str a.ty.name),
     ("valid_values", .strings a.validValues)]

def ValueWithUnit.members (p : ValueWithUnit) : List (String × Json) :=
  [("value_field", .str p.valueField), ("value_type", .str p.valueType.name),
   ("attributes", .arr (p.attributes.map AttributeInfo.toJson))]

def StructPattern.toJson : StructPattern → Json
  | none => .obj [("kind", .str "none")]
  | valueWithUnit p => .obj (("kind", .str "value_with_unit") :: p.members)
  | presenceOnly => .obj [("kind", .str "presence_only")]

def Struct.toJson (s : Struct) : Json :=
  .obj
    [("name", .str s.name),
     ("package", .str s.package),
     ("element", .ofOption .str s.element),
     ("fields", .arr (s.fields.map Field.toJson)),
     ("pattern", s.pattern.toJson),
     ("is_top_level", .bool s.isTopLevel),
     ("exclusion", .ofOption .str s.exclusion),
     ("description", .str s.description),
     ("markdown_description", .str s.markdownDescription)]

def Graph.toJson (g : Graph) : Json := .obj [("structs", .arr (g.structs.map Struct.toJson))]

end RecordSchema.Schema
