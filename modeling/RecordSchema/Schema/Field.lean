import RecordSchema.Catalog.Scalar

/-!
# Schema fields

A field of a generated struct: the value it shows, the document node it is kept in and who supplies
it.  A field does not own the struct it refers to; it holds the struct's place in the graph.
-/

namespace RecordSchema.Schema

/-- The place of a struct in a graph. -/
abbrev StructId := Nat

/-- The value a field shows. -/
inductive ValueType where
  | string
  | int64
  | float64
  | bool
  | list
  | object
deriving DecidableEq, Repr

namespace ValueType

def ofScalar (kind : ScalarKind) : ValueType :=
  match kind with
  | .bool => bool
  | _ => if kind.isFloat then float64 else if kind.isInteger then int64 else string

def name : ValueType → String
  | string => "string"
  | int64 => "int64"
  | float64 => "float64"
  | bool => "bool"
  | list => "list"
  | object => "object"

end ValueType

/-- Who supplies the value of a field. -/
inductive Optionality where
  | required
  | optional
  /-- Only the platform does. -/
  | computed
deriving DecidableEq, Repr

def Optionality.name : Optionality → String
  | required => "required"
  | optional => "optional"
  | computed => "computed"

/-- What a change of the value means for planning. -/
inductive PlanHint where
  | keepPriorState
  | requiresReplace
deriving DecidableEq, Repr

def PlanHint.name : PlanHint → String
  | keepPriorState => "keep_prior_state"
  | requiresReplace => "requires_replace"

/-- What a field refers to. -/
inductive Link where
  | none
  | struct (id : StructId)
  /-- The field leads back to a record on the way to it; the trace shows the way around. -/
  | cycle (trace : String)
deriving DecidableEq, Repr

inductive FieldPattern where
  | plain
  /-- Refers to a value with attributes that is still to be taken apart. -/
  | flattenValueWithUnit
  /-- Says whether an element without content is there. -/
  | presenceBoolean
  /-- The value of a value with attributes. -/
  | flattenedValue
  /-- An attribute of a value with attributes. -/
  | flattenedAttribute (attr : String)
deriving DecidableEq, Repr

/-- The texts that stand for true and false in a flag written as text. -/
structure FlagTokens where
  trueToken : String
  falseToken : String
deriving DecidableEq, Repr

/-- How a schema shows a field. -/
inductive AttributeKind where
  | listNested
  | list
  | singleNested
  | string
  | int64
  | bool
  | float64
deriving DecidableEq, Repr

def AttributeKind.name : AttributeKind → String
  | listNested => "list_nested"
  | list => "list"
  | singleNested => "single_nested"
  | string => "string"
  | int64 => "int64"
  | bool => "bool"
  | float64 => "float64"

structure Field where
  /-- The declared name. -/
  name : String
  /-- The name of the document node. -/
  xmlName : String
  /-- The name in the generated schema. -/
  outputName : String
  /-- The text of the declared type. -/
  sourceType : String := ""
  valueType : ValueType := .string
  /-- The value type of the elements of a list. -/
  elementType : Option ValueType := none
  isAttr : Bool := false
  /-- Whether the declared type is optional. -/
  isPointer : Bool := false
  isList : Bool := false
  /-- Whether the field is shown as an object of its own. -/
  isNested : Bool := false
  link : Link := .none
  optionality : Optionality := .required
  planHint : Option PlanHint := none
  /-- Show a value only if the user gave it. -/
  preserveUserIntent : Bool := false
  omitEmpty : Bool := false
  pattern : FieldPattern := .plain
  stringToBool : Option FlagTokens := none
  validValues : List String := []
  /-- Where the field was first reached in a resource, in output names. -/
  path : String := ""
  /-- Where the field was first reached in a document. -/
  xmlPath : String := ""
  description : String := ""
  markdownDescription : String := ""
  /-- Why the field is left out of the output, if it is. -/
  exclusion : Option String := none
deriving DecidableEq, Repr

namespace Field

/-- The struct a field refers to, unless it leads back. -/
def target? (f : Field) : Option StructId :=
  match f.link with
  | .struct id => some id
  | _ => none

def cycleTrace? (f : Field) : Option String :=
  match f.link with
  | .cycle trace => some trace
  | _ => none

def isCycle (f : Field) : Bool := f.cycleTrace?.isSome

def isFlattenMarker (f : Field) : Bool := f.pattern == .flattenValueWithUnit

def isPresenceBoolean (f : Field) : Bool := f.pattern == .presenceBoolean

def flattenedAttribute? (f : Field) : Option String :=
  match f.pattern with
  | .flattenedAttribute attr => some attr
  | _ => none

def isRequired (f : Field) : Bool := f.optionality == .required

def isOptional (f : Field) : Bool := f.optionality == .optional

def isComputed (f : Field) : Bool := f.optionality == .computed

def isExcluded (f : Field) : Bool := f.exclusion.isSome

/-- The struct a field opens in the output. -/
def nestedTarget? (f : Field) : Option StructId := if f.isNested then f.target? else none

def attributeKind (f : Field) : AttributeKind :=
  if f.isList then if f.isNested then .listNested else .list
  else if f.isNested then .singleNested
  else
    match f.valueType with
    | .int64 => .int64
    | .bool => .bool
    | .float64 => .float64
    | _ => .string

end Field

end RecordSchema.Schema
