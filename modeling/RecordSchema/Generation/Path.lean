import RecordSchema.Schema.Traversal

/-!
# Paths

An output path joins output names with dots, starting at a resource.  A document path joins the
names of document nodes, with an `@` before attributes.
-/

namespace RecordSchema.Generation

open Schema (Field Graph Struct StructId)

def outputPath (parent : String) (f : Field) : String := s!"{parent}.{f.outputName}"

/-- The name of the node a field is kept in; a field without one is called by its output name. -/
def nodeName (f : Field) : String := if f.xmlName.isEmpty then f.outputName else f.xmlName

def xmlPath (parent : String) (f : Field) : String :=
  match f.flattenedAttribute? with
  | some attr => s!"{parent}.{nodeName f}.@{attr}"
  | none => if f.isAttr then s!"{parent}.@{nodeName f}" else s!"{parent}.{nodeName f}"

/-- Where a struct is reached. -/
structure Position where
  path : String
  xmlPath : String
deriving DecidableEq, Repr

namespace Position

def below (p : Position) (f : Field) : Position :=
  ⟨outputPath p.path f, Generation.xmlPath p.xmlPath f⟩

end Position

/-- A starting point of paths. -/
structure PathRoot where
  id : StructId
  position : Position
deriving DecidableEq, Repr

/-- The structs a struct opens, with their positions. -/
def nestedPositions (s : Struct) (p : Position) : List (StructId × Position) :=
  s.fields.filterMap fun f => f.nestedTarget?.map (·, p.below f)

/-- Records a field's paths, unless it has been reached before. -/
def placeField (p : Position) (f : Field) : Field :=
  if f.path.isEmpty then
    { f with path := (p.below f).path, xmlPath := (p.below f).xmlPath }
  else f

def placeStruct (g : Graph) (visit : StructId × Position) : Graph :=
  g.modify visit.1 fun s => { s with fields := s.fields.map (placeField visit.2) }

/-- Records the paths of the structs reached from a root without entering those in `closed`. -/
def placeFrom (closed : List StructId) (g : Graph) (root : PathRoot) : Graph :=
  (g.firstVisits nestedPositions closed [(root.id, root.position)]).foldl placeStruct g

/-- Records the paths below one root; a struct shared by several parents is placed below the
first. -/
def assignPaths (g : Graph) (root : PathRoot) : Graph := placeFrom [] g root

/-- Records the paths below several roots; no root is entered from another one. -/
def assignRootPaths (g : Graph) (roots : List PathRoot) : Graph :=
  roots.foldl (fun g root => placeFrom ((roots.map (·.id)).filter (· != root.id)) g root) g

end RecordSchema.Generation
