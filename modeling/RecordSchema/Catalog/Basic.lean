import RecordSchema.Catalog.Scalar
import RecordSchema.Text.LetterCase

/-!
# Record catalogs

A catalog lists named records.  A record lists its fields, each with a declared type and a tag that
says which node of a document holds it: an element, an attribute or character data.
-/

namespace RecordSchema

/-- The kind of document node a field is kept in. -/
inductive NodeKind where
  | element
  | attr
  | charData
  /-- The field is left out of documents. -/
  | ignored
deriving DecidableEq, Repr

/-- Reads the name of a node kind, in any letter case. -/
def NodeKind.ofName? (s : String) : Option NodeKind :=
  match Text.lowerText s with
  | "element" | "elem" => some element
  | "attribute" | "attr" => some attr
  | "chardata" | "text" => some charData
  | "ignored" | "skip" => some ignored
  | _ => none

/-- How a field is kept in a document. -/
structure Tag where
  /-- The name of the element or attribute. -/
  name : String
  node : NodeKind
  /-- An empty value is left out. -/
  omitEmpty : Bool := false
deriving DecidableEq, Repr

namespace Tag

def isAttribute (t : Tag) : Bool := t.node == .attr

def isCharData (t : Tag) : Bool := t.node == .charData

end Tag

mutual

/-- The declared type of a field. -/
inductive TypeExpr where
  | scalar (kind : ScalarKind)
  /-- A record of the catalog. -/
  | named (name : String)
  /-- A record declared in place. -/
  | inline (record : RecordDecl)
  | optional (inner : TypeExpr)
  | list (element : TypeExpr)

structure FieldDecl where
  name : String
  ty : TypeExpr
  /-- A field without a tag takes no part in documents. -/
  tag : Option Tag := none
  /-- Whether the field can be seen outside its record. -/
  exported : Bool := true
  /-- Whether the fields of the field's record belong to the enclosing record. -/
  embedded : Bool := false
  /-- The values a schema restricts the field to, if it does. -/
  validValues : List String := []

structure RecordDecl where
  /-- Empty for a record declared in place. -/
  name : String := ""
  package : String := ""
  /-- The element the record is written as when it is the root of a document. -/
  element : Option String := none
  fields : List FieldDecl := []

end

deriving instance Repr for TypeExpr, FieldDecl, RecordDecl

namespace TypeExpr

/-- The type inside all outer `optional`s. -/
def stripOptional : TypeExpr → TypeExpr
  | optional inner => inner.stripOptional
  | ty => ty

def isOptional : TypeExpr → Bool
  | optional _ => true
  | _ => false

/-- The scalar inside the outer `optional`s. -/
def scalar? (ty : TypeExpr) : Option ScalarKind :=
  match ty.stripOptional with
  | scalar kind => some kind
  | _ => none

/-- The record named inside the outer `optional`s. -/
def recordName? (ty : TypeExpr) : Option String :=
  match ty.stripOptional with
  | named name => some name
  | _ => none

def kindName : TypeExpr → String
  | scalar _ => "scalar"
  | named _ => "record"
  | inline _ => "anonymous record"
  | optional _ => "optional"
  | list _ => "list"

/-- The text of a type in messages and in the generated schema. -/
def display : TypeExpr → String
  | scalar kind => kind.name
  | named name => name
  | inline _ => "record \x7b .. \x7d"
  | optional inner => "?" ++ inner.display
  | list element => "[" ++ element.display ++ "]"

end TypeExpr

namespace FieldDecl

/-- A field that embeds a record; it is called after the record when its type is just a name. -/
def embed (ty : TypeExpr) : FieldDecl :=
  { name := match ty with
      | .named name => name
      | _ => ""
    ty, embedded := true }

def node? (f : FieldDecl) : Option NodeKind := f.tag.map (·.node)

/-- Whether the field takes part in documents. -/
def isSerialized (f : FieldDecl) : Bool :=
  f.exported && f.tag.any (·.node != .ignored)

end FieldDecl

namespace RecordDecl

def isAnonymous (r : RecordDecl) : Bool := r.name.isEmpty

def field? (r : RecordDecl) (name : String) : Option FieldDecl :=
  r.fields.find? (·.name == name)

end RecordDecl

/-- A list of records with distinct names. -/
structure Catalog where
  package : String
  records : List RecordDecl := []
  nodup : (records.map RecordDecl.name).Nodup := by exact List.Pairwise.nil

namespace Catalog

def empty (package : String) : Catalog := { package }

def size (c : Catalog) : Nat := c.records.length

def names (c : Catalog) : List String := c.records.map RecordDecl.name

def find? (c : Catalog) (name : String) : Option RecordDecl :=
  c.records.find? (·.name == name)

def contains (c : Catalog) (name : String) : Bool := (c.find? name).isSome

theorem mem_names_iff_contains (c : Catalog) (name : String) :
    name ∈ c.names ↔ c.contains name = true := by
  simp [names, contains, find?]

theorem mem_of_find?_eq_some {c : Catalog} {name : String} {r : RecordDecl}
    (h : c.find? name = some r) : r ∈ c.records ∧ r.name = name := by
  rw [find?] at h
  have hname := List.find?_some h
  exact ⟨List.mem_of_find?_eq_some h, beq_iff_eq.1 hname⟩

/-- Adds a record at the end, unless its name is taken. -/
def insert? (c : Catalog) (r : RecordDecl) : Option Catalog :=
  if h : r.name ∈ c.names then none
  else some
    { c with
      records := c.records ++ [r]
      nodup := by
        rw [List.map_append, List.nodup_append]
        refine ⟨c.nodup, by simp, fun a ha b hb => ?_⟩
        rw [List.map_singleton, List.mem_singleton] at hb
        exact fun hab => h (hb ▸ hab ▸ ha) }

/-- Adds a record at the end and leaves the catalog alone if its name is taken. -/
def insert (c : Catalog) (r : RecordDecl) : Catalog := (c.insert? r).getD c

/-- The catalog of a list of records; of two with one name the first counts. -/
def ofRecords (package : String) (records : List RecordDecl) : Catalog :=
  records.foldl insert (empty package)

end Catalog

end RecordSchema
