import RecordSchema.Catalog.Build

/-!
# Chain catalogs

Catalogs of any depth and width: a chain of records, each with some attributes, a size and the next
record, and the last leading back to the first.
-/

namespace RecordSchema.Catalog

open FieldDecl TypeExpr

def levelName (level : Nat) : String := s!"Level{level}"

def sizeRecord : RecordDecl where
  name := "Size"
  fields :=
    [inText "Value" (.scalar .uint64), (inAttribute "Unit" .string "unit").orEmpty]

def levelRecord (depth width level : Nat) : RecordDecl where
  name := levelName level
  element := if level = 0 then some "root" else none
  fields :=
    (List.range width).map (fun i => (inAttribute s!"Attr{i}" .string s!"attr{i}").orEmpty) ++
      [inElement "Size" (maybe "Size") "size",
       inElement "Child" (maybe (levelName ((level + 1) % depth))) "child"]

/-- The chain of `depth` records, at least one, with `width` attributes each. -/
def chain (depth width : Nat) : Catalog :=
  let depth := max depth 1
  ofRecords "bench" (sizeRecord :: (List.range depth).map (levelRecord depth width))

end RecordSchema.Catalog
