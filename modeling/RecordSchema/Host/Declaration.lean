import RecordSchema.Catalog.Basic
import RecordSchema.Text.Blank

/-!
# Host declarations

Records declared by the types of a host program.  Each field says with options how it is kept in
documents; registering a type adds the records it is made of to a catalog.
-/

namespace RecordSchema.Host

inductive HostType where
  | scalar (kind : ScalarKind)
  | optional (inner : HostType)
  | sequence (element : HostType)
  /-- A value kept elsewhere, which a catalog does not tell from the value. -/
  | boxed (inner : HostType)
  | record (key : String)
deriving DecidableEq, Repr

inductive FieldOption where
  /-- Kept in an element, called like the field if there is no other name. -/
  | element (name : Option String)
  | attr (name : Option String)
  | charData
  | skip
  | flatten
  | omitEmpty
  | name (name : String)
  /-- The valid values, with bars between them. -/
  | choices (values : String)
deriving DecidableEq, Repr

structure HostField where
  name : String
  ty : HostType
  options : List FieldOption := []
  /-- Whether the field can be seen everywhere. -/
  isPublic : Bool := true
deriving DecidableEq, Repr

structure HostRecord where
  name : String
  package : String
  /-- The root elements given; the last one counts. -/
  elements : List String := []
  fields : List HostField := []
deriving DecidableEq, Repr

/-- The records of a program by their keys. Records made from one template share a name, not a
key. -/
abbrev Program := List (String × HostRecord)

namespace HostType

def typeExpr (p : Program) : HostType → TypeExpr
  | scalar kind => .scalar kind
  | optional inner => .optional (inner.typeExpr p)
  | sequence element => .list (element.typeExpr p)
  | boxed inner => inner.typeExpr p
  | record key => .named ((p.lookup key).elim key (·.name))

/-- The record inside all wrappers. -/
def key? : HostType → Option String
  | scalar _ => none
  | optional inner | sequence inner | boxed inner => inner.key?
  | record key => some key

end HostType

/-- The values between the bars of a list of choices. -/
def splitChoices (values : String) : List String :=
  ((values.splitOn "|").map Text.trim).filter (!·.isEmpty)

namespace HostField

/-- The tag the options ask for, before empty values are looked at. -/
def node? (f : HostField) : Option Tag :=
  f.options.findSome? fun
    | .element name => some { name := name.getD f.name, node := .element }
    | .attr name => some { name := name.getD f.name, node := .attr }
    | .charData => some { name := "", node := .charData }
    | .skip => some { name := "", node := .ignored }
    | _ => none

def declaredName (f : HostField) : String :=
  f.options.foldl (fun name o => match o with | .name n => n | _ => name) f.name

def validValues (f : HostField) : List String :=
  f.options.foldl (fun vs o => match o with | .choices values => splitChoices values | _ => vs) []

def declaration (p : Program) (f : HostField) : FieldDecl :=
  if f.options.contains .flatten then
    { FieldDecl.embed (f.ty.typeExpr p) with exported := f.isPublic }
  else
    { name := f.declaredName
      ty := f.ty.typeExpr p
      tag := f.node?.map fun t => { t with omitEmpty := f.options.contains .omitEmpty }
      exported := f.isPublic
      validValues := f.validValues }

end HostField

namespace HostRecord

def declaration (p : Program) (r : HostRecord) : RecordDecl where
  name := r.name
  package := r.package
  element := r.elements.getLast?
  fields := r.fields.map (HostField.declaration p)

end HostRecord

/-! ## Registration -/

/-- The records of a program that a catalog does not have. -/
def missing (p : Program) (c : Catalog) : Program := p.filter fun e => !c.names.contains e.2.name

theorem names_insert? {c c' : Catalog} {r : RecordDecl} (h : c.insert? r = some c') :
    r.name ∉ c.names ∧ c'.names = c.names ++ [r.name] := by
  unfold Catalog.insert? at h
  split at h
  · contradiction
  · next hr =>
    obtain rfl := Option.some.inj h
    exact ⟨hr, by simp [Catalog.names]⟩

theorem missing_insert?_lt {p : Program} {c c' : Catalog} {key : String} {r : HostRecord}
    (hkey : p.lookup key = some r) (h : c.insert? (r.declaration p) = some c') :
    (missing p c').length < (missing p c).length := by
  obtain ⟨hnot, hnames⟩ := names_insert? h
  have hmem : ∃ k, (k, r) ∈ p := by
    obtain ⟨l₁, l₂, rfl, -⟩ := List.lookup_eq_some_iff.1 hkey
    exact ⟨key, by simp⟩
  obtain ⟨k, hmem⟩ := hmem
  have hsub : missing p c' = (missing p c).filter fun e => !(e.2.name == r.name) := by
    simp only [missing, List.filter_filter, hnames]
    refine List.filter_congr fun e _ => ?_
    rw [List.contains_append, List.contains_cons, List.contains_nil, Bool.or_false, Bool.not_or,
      Bool.and_comm]
    rfl
  rw [hsub]
  refine List.length_filter_lt_length_iff_exists.2 ⟨(k, r), List.mem_filter.2 ⟨hmem, ?_⟩, by simp⟩
  simpa [HostRecord.declaration] using hnot

/-- Adds the records of the types and of the fields of those records, each record before its
fields. A record whose name is taken adds nothing. -/
def register (p : Program) (c : Catalog) (types : List HostType) : Catalog :=
  match types with
  | [] => c
  | ty :: rest =>
    match _hkey : ty.key?.bind fun key => p.lookup key with
    | none => register p c rest
    | some r =>
      match _hins : c.insert? (r.declaration p) with
      | none => register p c rest
      | some c' => register p c' (r.fields.map (·.ty) ++ rest)
termination_by ((missing p c).length, types.length)
decreasing_by
  · exact Prod.Lex.right _ (by simp)
  · exact Prod.Lex.right _ (by simp)
  · obtain ⟨key, -, hkey⟩ := Option.bind_eq_some_iff.1 _hkey
    exact Prod.Lex.left _ _ (missing_insert?_lt hkey _hins)

end RecordSchema.Host
