import RecordSchema.Schema.Graph

/-!
# Structs told by name

The place of a struct depends on what was met before it.  A struct is told apart from places when
every place it holds is replaced by the name of the struct there.
-/

namespace RecordSchema.Schema

/-- What a field refers to, told by name. -/
inductive NamedLink where
  | none
  /-- The name of the struct that is referred to, if there is one. -/
  | struct (name : Option String)
  | cycle (trace : String)
deriving DecidableEq, Repr

def Link.named (g : Graph) : Link → NamedLink
  | .none => .none
  | .struct id => .struct ((g.get? id).map Struct.name)
  | .cycle trace => .cycle trace

/-- A field without its link, and the link told by name. -/
structure NamedField where
  field : Field
  link : NamedLink
deriving DecidableEq, Repr

/-- A struct without its fields, and the fields told by name. -/
structure NamedStruct where
  struct : Struct
  fields : List NamedField
deriving DecidableEq, Repr

def Field.named (g : Graph) (f : Field) : NamedField := ⟨{ f with link := .none }, f.link.named g⟩

def Struct.named (g : Graph) (s : Struct) : NamedStruct :=
  ⟨{ s with fields := [] }, s.fields.map (Field.named g)⟩

theorem Link.named_struct {g : Graph} {id : StructId} {t : Struct} (ht : g.get? id = some t) :
    (Link.struct id).named g = .struct (some t.name) := by
  rw [Link.named, ht, Option.map_some]

end RecordSchema.Schema
