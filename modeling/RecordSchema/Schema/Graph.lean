import RecordSchema.Schema.Struct
import Std.Data.ExtTreeMap

/-!
# Struct graphs

The structs of a run in the order they were met, with an index of their names.  A struct is found by
its place or by its name; a name is taken once.
-/

namespace RecordSchema.Schema

structure Graph where
  structs : List Struct := []
  /-- The places of the names. -/
  index : Std.ExtTreeMap String StructId := ∅
deriving DecidableEq, Repr

namespace Graph

def empty : Graph := {}

def size (g : Graph) : Nat := g.structs.length

def names (g : Graph) : List String := g.structs.map (·.name)

def lookup (g : Graph) (name : String) : Option StructId := g.index[name]?

def get? (g : Graph) (id : StructId) : Option Struct := g.structs[id]?

/-- The fields of the struct at a place; out of range there are none. -/
def fieldsAt (g : Graph) (id : StructId) : List Field := (g.get? id).elim [] Struct.fields

def find? (g : Graph) (name : String) : Option Struct := (g.lookup name).bind g.get?

/-- The struct a field refers to. -/
def target? (g : Graph) (f : Field) : Option Struct := f.target?.bind g.get?

/-- Adds a struct at the end, unless its name is taken, and gives the place of the name. -/
def insert (g : Graph) (s : Struct) : StructId × Graph :=
  match g.lookup s.name with
  | some id => (id, g)
  | none => (g.size, ⟨g.structs ++ [s], g.index.insert s.name g.size⟩)

/-- Keeps the first `len` structs and forgets the names of the others. -/
def truncate (g : Graph) (len : Nat) : Graph :=
  ⟨g.structs.take len, (g.structs.drop len).foldl (fun index s => index.erase s.name) g.index⟩

/-- Changes the struct at a place; out of range nothing happens. -/
def modify (g : Graph) (id : StructId) (f : Struct → Struct) : Graph :=
  { g with structs := g.structs.modify id f }

@[simp] theorem size_empty : empty.size = 0 := rfl

@[simp] theorem size_modify (g : Graph) (id : StructId) (f : Struct → Struct) :
    (g.modify id f).size = g.size := List.length_modify ..

@[simp] theorem size_truncate (g : Graph) (len : Nat) : (g.truncate len).size = min len g.size :=
  List.length_take ..

end Graph

end RecordSchema.Schema
