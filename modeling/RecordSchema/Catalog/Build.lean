import RecordSchema.Catalog.Basic

/-!
# Building declarations

Short forms for catalogs that are written down as values.
-/

namespace RecordSchema

namespace TypeExpr

def string : TypeExpr := scalar .string

/-- A record that may be missing. -/
def maybe (name : String) : TypeExpr := optional (named name)

def many (name : String) : TypeExpr := list (named name)

end TypeExpr

namespace FieldDecl

def inElement (name : String) (ty : TypeExpr) (xmlName : String) : FieldDecl :=
  { name, ty, tag := some { name := xmlName, node := .element } }

def inAttribute (name : String) (ty : TypeExpr) (xmlName : String) : FieldDecl :=
  { name, ty, tag := some { name := xmlName, node := .attr } }

def inText (name : String) (ty : TypeExpr) : FieldDecl :=
  { name, ty, tag := some { name := "", node := .charData } }

/-- The field with an empty value left out of documents. -/
def orEmpty (f : FieldDecl) : FieldDecl :=
  { f with tag := f.tag.map fun t => { t with omitEmpty := true } }

def oneOf (values : List String) (f : FieldDecl) : FieldDecl := { f with validValues := values }

end FieldDecl

end RecordSchema
