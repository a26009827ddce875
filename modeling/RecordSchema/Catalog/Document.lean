import RecordSchema.Catalog.Basic
import RecordSchema.FileTree
import RecordSchema.Markup.Document
import RecordSchema.Text.Blank

/-!
# Catalog documents

A catalog is written as a `catalog` element with `record` elements inside.  A record holds `field`
and `embed` elements, a field may hold a `record` declared in place and `choice` elements with its
valid values.  The reader goes through the events of a document one by one.
-/

namespace RecordSchema

inductive ParseError where
  | markup (fault : Markup.Fault)
  | missingAttribute (element key : String)
  | invalidAttribute (element key value : String)
  | unknownElement (element context : String)
  | duplicateRecord (name : String)
  | recordOutsideCatalog
  | noCatalog
  /-- The document ends inside an element. -/
  | unclosed (element : String)
  | unreadable (fault : FileFault)
deriving DecidableEq, Repr

def ParseError.message : ParseError → String
  | markup fault => s!"XML parsing error: {fault.message}"
  | missingAttribute element key => s!"missing required attribute '{key}' on element '{element}'"
  | invalidAttribute element key value =>
    s!"invalid value '{value}' for attribute '{key}' on element '{element}'"
  | unknownElement element context => s!"unknown element '{element}' in context '{context}'"
  | duplicateRecord name => s!"duplicate record definition: '{name}'"
  | recordOutsideCatalog => "invalid catalog structure: record outside of catalog"
  | noCatalog => "invalid catalog structure: No catalog element found"
  | unclosed element =>
    s!"invalid catalog structure: unexpected end of document inside {element}"
  | unreadable fault => s!"IO error: {fault.message}"

namespace CatalogDocument

open Markup (Element Event)

/-! ## Fields -/

/-- The attributes of a field element. -/
structure FieldHead where
  embedded : Bool
  name : Option String := none
  typeName : Option String := none
  optional : Bool := false
  list : Bool := false
  /-- The node that holds the field, with its name. -/
  node : Option (NodeKind × String) := none
  omitEmpty : Bool := false
  exported : Bool := true
deriving DecidableEq, Repr

namespace FieldHead

def elementName (h : FieldHead) : String := if h.embedded then "embed" else "field"

def flag (h : FieldHead) (key value : String) : Except ParseError Bool :=
  if value ∈ ["true", "yes", "1"] then .ok true
  else if value ∈ ["false", "no", "0"] then .ok false
  else .error (.invalidAttribute h.elementName key value)

/-- A field is held by one node only. -/
def setNode (h : FieldHead) (key value : String) (node : NodeKind) (name : String) :
    Except ParseError FieldHead :=
  if h.node.isSome then .error (.invalidAttribute h.elementName key value)
  else .ok { h with node := some (node, name) }

/-- Sets a node without a name, if the flag is up. -/
def setNodeIf (h : FieldHead) (key value : String) (node : NodeKind) :
    Except ParseError FieldHead := do
  if ← h.flag key value then h.setNode key value node "" else return h

/-- Takes in one attribute. Unknown attributes mean nothing. -/
def note (h : FieldHead) : String × String → Except ParseError FieldHead
  | ("name", value) => .ok { h with name := some value }
  | ("type", value) => .ok { h with typeName := some value }
  | ("optional", value) => do return { h with optional := ← h.flag "optional" value }
  | ("list", value) => do return { h with list := ← h.flag "list" value }
  | ("omitempty", value) => do return { h with omitEmpty := ← h.flag "omitempty" value }
  | ("exported", value) => do return { h with exported := ← h.flag "exported" value }
  | ("element", value) => h.setNode "element" value .element value
  | ("attr", value) => h.setNode "attr" value .attr value
  | ("chardata", value) => h.setNodeIf "chardata" value .charData
  | ("ignored", value) => h.setNodeIf "ignored" value .ignored
  | _ => .ok h

def ofElement (embedded : Bool) (e : Element) : Except ParseError FieldHead :=
  e.attributes.foldlM note { embedded }

/-- The type named by the attributes or declared in place; there must be exactly one. -/
def baseType (h : FieldHead) (inline : Option RecordDecl) : Except ParseError TypeExpr :=
  match h.typeName, inline with
  | some name, none =>
    match ScalarKind.ofName? name with
    | some kind => .ok (.scalar kind)
    | none => .ok (.named name)
  | none, some record => .ok (.inline record)
  | some name, some _ => .error (.invalidAttribute h.elementName "type" name)
  | none, none => .error (.missingAttribute h.elementName "type")

/-- The field's type with its wrappers: a list may be optional, but no element of it. -/
def wrapType (h : FieldHead) (base : TypeExpr) : TypeExpr :=
  let ty := if h.list then .list base else base
  if h.optional then .optional ty else ty

/-- The name and type of the field; an embedded field need not be named. -/
def named (h : FieldHead) (ty : TypeExpr) : Except ParseError FieldDecl :=
  if h.embedded then
    let field := FieldDecl.embed ty
    .ok { field with name := h.name.getD field.name }
  else
    match h.name.filter (!·.isEmpty) with
    | some name => .ok { name, ty }
    | none => .error (.missingAttribute h.elementName "name")

end FieldHead

/-- A field element whose end has not been reached. -/
structure OpenField where
  head : FieldHead
  choices : List String := []
  inline : Option RecordDecl := none

def OpenField.finish (f : OpenField) : Except ParseError FieldDecl := do
  let base ← f.head.baseType f.inline
  let field ← f.head.named (f.head.wrapType base)
  return { field with
    tag := f.head.node.map fun (node, name) => { name, node, omitEmpty := f.head.omitEmpty }
    exported := f.head.exported
    validValues := f.choices }

/-- The field of an element without content. -/
def emptyField (embedded : Bool) (e : Element) : Except ParseError FieldDecl := do
  OpenField.finish { head := ← FieldHead.ofElement embedded e }

/-! ## Records -/

/-- The record a `record` element declares, without its fields. -/
def recordHead (package : String) (e : Element) : Except ParseError RecordDecl :=
  match (e.attributes.lookup "name").filter (!·.isEmpty) with
  | some name =>
    .ok
      { name
        package := (e.attributes.lookup "package").getD package
        element := e.attributes.lookup "element" }
  | none => .error (.missingAttribute "record" "name")

def addRecord (c : Catalog) (r : RecordDecl) : Except ParseError Catalog :=
  match c.insert? r with
  | some c' => .ok c'
  | none => .error (.duplicateRecord r.name)

def catalogHead (e : Element) : Catalog := .empty ((e.attributes.lookup "package").getD "")

/-! ## Positions -/

/-- What a list of fields belongs to. -/
inductive Owner where
  /-- A record of the catalog, which is to be added to `catalog`. -/
  | record (catalog : Catalog) (head : RecordDecl)
  /-- A record declared in the field `field`, which follows `before` in the fields of `outer`. -/
  | inline (outer : Owner) (before : List FieldDecl) (field : OpenField)

/-- Where the reader stands, with all it has read so far. -/
inductive Position where
  | top (catalog : Option Catalog)
  | fields (owner : Owner) (before : List FieldDecl)
  | field (owner : Owner) (before : List FieldDecl) (field : OpenField)
  | choice (owner : Owner) (before : List FieldDecl) (field : OpenField) (text : String)

/-- Reads one event outside of records. End tags are the business of the markup. -/
def stepTop (catalog : Option Catalog) : Event → Except ParseError Position
  | .opening e => do
    match e.name with
    | "catalog" => return .top (catalogHead e)
    | "record" =>
      let some c := catalog | throw .recordOutsideCatalog
      return .fields (.record c (← recordHead c.package e)) []
    | other => throw (.unknownElement other "catalog")
  | .selfClosing e => do
    match e.name with
    | "catalog" => return .top (catalogHead e)
    | "record" =>
      let some c := catalog | throw .recordOutsideCatalog
      return .top (← addRecord c (← recordHead c.package e))
    | other => throw (.unknownElement other "catalog")
  | .fault fault => .error (.markup fault)
  | _ => .ok (.top catalog)

/-- Ends a list of fields. -/
def closeFields (fields : List FieldDecl) : Owner → Except ParseError Position
  | .record catalog head => do return .top (← addRecord catalog { head with fields })
  | .inline outer before field => .ok (.field outer before { field with inline := some { fields } })

/-- Reads one event between the fields of a record. -/
def stepFields (owner : Owner) (before : List FieldDecl) : Event → Except ParseError Position
  | .opening e => do
    match e.name with
    | "field" => return .field owner before { head := ← FieldHead.ofElement false e }
    | "embed" => return .field owner before { head := ← FieldHead.ofElement true e }
    | other => throw (.unknownElement other "record")
  | .selfClosing e => do
    match e.name with
    | "field" => return .fields owner (before ++ [← emptyField false e])
    | "embed" => return .fields owner (before ++ [← emptyField true e])
    | other => throw (.unknownElement other "record")
  | .closing _ => closeFields before owner
  | .fault fault => .error (.markup fault)
  | _ => .ok (.fields owner before)

/-- Reads one event inside a field element. -/
def stepField (owner : Owner) (before : List FieldDecl) (field : OpenField) :
    Event → Except ParseError Position
  | .opening e => do
    match e.name with
    | "record" => return .fields (.inline owner before field) []
    | "choice" => return .choice owner before field ""
    | other => throw (.unknownElement other "field")
  | .selfClosing e => do
    match e.name with
    | "record" => return .field owner before { field with inline := some {} }
    | "choice" => return .field owner before field
    | other => throw (.unknownElement other "field")
  | .closing _ => do return .fields owner (before ++ [← field.finish])
  | .fault fault => .error (.markup fault)
  | _ => .ok (.field owner before field)

/-- Reads one event inside a choice: its texts count without the blanks around them, and the first
end tag closes it. -/
def stepChoice (owner : Owner) (before : List FieldDecl) (field : OpenField) (text : String) :
    Event → Except ParseError Position
  | .text content => .ok (.choice owner before field (text ++ Text.trim content))
  | .closing _ => .ok (.field owner before { field with choices := field.choices ++ [text] })
  | .fault fault => .error (.markup fault)
  | _ => .ok (.choice owner before field text)

namespace Position

def step : Position → Event → Except ParseError Position
  | top catalog => stepTop catalog
  | fields owner before => stepFields owner before
  | field owner before f => stepField owner before f
  | choice owner before f text => stepChoice owner before f text

/-- The catalog at the end of a document. -/
def finish : Position → Except ParseError Catalog
  | top (some catalog) => .ok catalog
  | top none => .error .noCatalog
  | fields .. => .error (.unclosed "record")
  | field .. => .error (.unclosed "field")
  | choice .. => .error (.unclosed "choice")

end Position

end CatalogDocument

namespace Catalog

/-- The catalog told by the events of a document. -/
def ofEvents (events : List Markup.Event) : Except ParseError Catalog := do
  (← events.foldlM CatalogDocument.Position.step (.top none)).finish

/-- The catalog written in a document. -/
def parse (document : String) : Except ParseError Catalog := ofEvents (Markup.events document)

/-- The catalog written in a file. -/
def parseFile (files : FileTree) (path : String) : Except ParseError Catalog :=
  match files.read path with
  | .ok document => parse document
  | .error fault => .error (.unreadable fault)

end Catalog

end RecordSchema
