/-!
# Scalars

The built-in scalar types of a catalog and their names in it.
-/

namespace RecordSchema

inductive ScalarKind where
  | string
  | bool
  | int
  | int8
  | int16
  | int32
  | int64
  | uint
  | uint8
  | uint16
  | uint32
  | uint64
  | float32
  | float64
deriving DecidableEq, Repr

namespace ScalarKind

def name : ScalarKind → String
  | string => "string"
  | bool => "bool"
  | int => "int"
  | int8 => "int8"
  | int16 => "int16"
  | int32 => "int32"
  | int64 => "int64"
  | uint => "uint"
  | uint8 => "uint8"
  | uint16 => "uint16"
  | uint32 => "uint32"
  | uint64 => "uint64"
  | float32 => "float32"
  | float64 => "float64"

def all : List ScalarKind :=
  [string, bool, int, int8, int16, int32, int64, uint, uint8, uint16, uint32, uint64, float32,
   float64]

def ofName? (s : String) : Option ScalarKind := all.find? (·.name == s)

def isFloat : ScalarKind → Bool
  | float32 | float64 => true
  | _ => false

def isInteger : ScalarKind → Bool
  | string | bool | float32 | float64 => false
  | _ => true

end ScalarKind

end RecordSchema
