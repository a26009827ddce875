import RecordSchema.Proofs.Catalog.Part
import RecordSchema.Proofs.Catalog.Reading
import RecordSchema.Proofs.Markup.Writing

/-!
# Writing catalogs

A catalog as a document: an element for each record, field and choice, with every property as an
attribute.  A field whose type is declared in place holds the record; its wrappers are flags of the
field.  What such a document cannot say is kept out by conditions on the catalog.
-/

namespace RecordSchema

open CatalogDocument (FieldHead fieldTag)
open Markup (Element Node)

/-! ## Documents of catalogs -/

def flagText (up : Bool) : String := if up then "true" else "false"

namespace TypeExpr

/-- The name inside the wrappers; a record declared in place has none. -/
def baseName? : TypeExpr → Option String
  | optional inner => inner.baseName?
  | list element => element.baseName?
  | scalar kind => some kind.name
  | named name => some name
  | inline _ => none

/-- The record declared in place inside the wrappers. -/
def inPlace? : TypeExpr → Option RecordDecl
  | optional inner => inner.inPlace?
  | list element => element.inPlace?
  | inline record => some record
  | scalar _ | named _ => none

/-- Whether there is a list inside the outer `optional`s. -/
def isList (ty : TypeExpr) : Bool :=
  match ty.stripOptional with
  | list _ => true
  | _ => false

end TypeExpr

def Tag.attributes (t : Tag) : List (String × String) :=
  [match t.node with
    | .element => ("element", t.name)
    | .attr => ("attr", t.name)
    | .charData => ("chardata", "true")
    | .ignored => ("ignored", "true"),
   ("omitempty", flagText t.omitEmpty)]

namespace CatalogDocument

def fieldHead (f : FieldDecl) : Element where
  name := fieldTag f.embedded
  attributes :=
    ("name", f.name) :: (f.ty.baseName?.map (("type", ·))).toList ++
      ("optional", flagText f.ty.isOptional) :: ("list", flagText f.ty.isList) ::
      ("exported", flagText f.exported) :: f.tag.elim [] Tag.attributes

def choiceNode (value : String) : Node := .leaf { name := "choice" } value

mutual

def fieldNodes : List FieldDecl → List Node
  | [] => []
  | f :: rest => fieldNode f :: fieldNodes rest

def fieldNode : FieldDecl → Node
  | { name, ty, tag, exported, embedded, validValues } =>
    .element (fieldHead { name, ty, tag, exported, embedded, validValues })
      (inPlaceNodes ty ++ validValues.map choiceNode)

/-- The element of the record declared in place, if there is one. -/
def inPlaceNodes : TypeExpr → List Node
  | .optional inner => inPlaceNodes inner
  | .list element => inPlaceNodes element
  | .inline record => [inPlaceNode record]
  | .scalar _ | .named _ => []

def inPlaceNode : RecordDecl → Node
  | { fields, .. } => .element { name := "record" } (fieldNodes fields)

end

def recordElement (r : RecordDecl) : Element where
  name := "record"
  attributes :=
    ("name", r.name) :: (r.element.map (("element", ·))).toList ++ [("package", r.package)]

def recordNode (r : RecordDecl) : Node := .element (recordElement r) (fieldNodes r.fields)

def catalogElement (c : Catalog) : Element where
  name := "catalog"
  attributes := [("package", c.package)]

def catalogNode (c : Catalog) : Node := .element (catalogElement c) (c.records.map recordNode)

end CatalogDocument

/-- The catalog as a document. -/
def Catalog.write (c : Catalog) : String := String.ofList (CatalogDocument.catalogNode c).write

/-! ## What documents can say -/

/-- A text that can be the value of an attribute. -/
def IsPlain (s : String) : Prop := '"' ∉ s.toList

instance (s : String) : Decidable (IsPlain s) := inferInstanceAs (Decidable (¬_))

/-- A type without wrappers; a record declared in place has fields and nothing else. -/
inductive TypeExpr.IsBase : TypeExpr → Prop
  | scalar {kind : ScalarKind} : IsBase (.scalar kind)
  | named {name : String} (not_scalar : ScalarKind.ofName? name = none) (plain : IsPlain name) :
      IsBase (.named name)
  | inline {fields : List FieldDecl} : IsBase (.inline { fields })

/-- A type whose wrappers can be told by two flags: perhaps a list, and that perhaps optional. -/
inductive TypeExpr.Writable : TypeExpr → Prop
  | base {ty : TypeExpr} (base : ty.IsBase) : Writable ty
  | list {ty : TypeExpr} (base : ty.IsBase) : Writable (.list ty)
  | optional {ty : TypeExpr} (base : ty.IsBase) : Writable (.optional ty)
  | optionalList {ty : TypeExpr} (base : ty.IsBase) : Writable (.optional (.list ty))

/-- A tag whose name an attribute can hold; character data and ignored fields have none. -/
structure Tag.Writable (t : Tag) : Prop where
  plain : IsPlain t.name
  charData : t.node = .charData → t.name = ""
  ignored : t.node = .ignored → t.name = ""

instance (t : Tag) : Decidable t.Writable :=
  decidable_of_iff (IsPlain t.name ∧ (t.node = .charData → t.name = "") ∧
      (t.node = .ignored → t.name = ""))
    ⟨fun h => ⟨h.1, h.2.1, h.2.2⟩, fun h => ⟨h.plain, h.charData, h.ignored⟩⟩

structure FieldDecl.Writable (f : FieldDecl) : Prop where
  named : f.embedded = false → f.name ≠ ""
  plain : IsPlain f.name
  type : f.ty.Writable
  tag : ∀ t, f.tag = some t → t.Writable
  values : ∀ v ∈ f.validValues, Markup.IsContent v ∧ Text.trim v = v

/-- Fields that can be written, with those of all records declared in place in them. -/
def WritableFields (fields : List FieldDecl) : Prop :=
  ∀ inner, Encloses fields inner → ∀ f ∈ inner, f.Writable

/-- A catalog whose documents say all there is to say about it. -/
structure Catalog.Writable (c : Catalog) : Prop where
  package : IsPlain c.package
  named : ∀ r ∈ c.records, r.name ≠ ""
  plain : ∀ r ∈ c.records,
    IsPlain r.name ∧ IsPlain r.package ∧ ∀ e, r.element = some e → IsPlain e
  fields : ∀ r ∈ c.records, WritableFields r.fields

namespace TypeExpr

/-- Inside the wrappers of a type stands no record in place but the one. -/
theorem inPlace?_of_wraps {ty : TypeExpr} {r : RecordDecl} (h : ty.Wraps (.inline r)) :
    ty.inPlace? = some r := by
  generalize hpart : TypeExpr.inline r = part at h
  induction h with
  | refl =>
      subst hpart
      rfl
  | optional _ ih => exact ih hpart
  | list _ ih => exact ih hpart

theorem wraps_of_inPlace? {r : RecordDecl} :
    ∀ {ty : TypeExpr}, ty.inPlace? = some r → ty.Wraps (.inline r)
  | .optional _, h => .optional (wraps_of_inPlace? h)
  | .list _, h => .list (wraps_of_inPlace? h)
  | .inline _, h => by
      cases h
      exact .refl
  | .scalar _, h | .named _, h => by cases h

theorem IsBase.isOptional_eq_false {ty : TypeExpr} (h : ty.IsBase) : ty.isOptional = false := by
  cases h <;> rfl

theorem IsBase.isList_eq_false {ty : TypeExpr} (h : ty.IsBase) : ty.isList = false := by
  cases h <;> rfl

/-- A type is made from what stands inside its wrappers by the flags that tell the wrappers. -/
theorem Writable.exists_base {ty : TypeExpr} (h : ty.Writable) :
    ∃ base : TypeExpr, base.IsBase ∧ base.baseName? = ty.baseName? ∧ base.inPlace? = ty.inPlace? ∧
      ∀ head : FieldHead, head.optional = ty.isOptional → head.list = ty.isList →
        head.wrapType base = ty := by
  cases h with
  | base base =>
      refine ⟨ty, base, rfl, rfl, fun head hoptional hlist => ?_⟩
      rw [FieldHead.wrapType, hoptional, hlist, base.isOptional_eq_false, base.isList_eq_false]
      rfl
  | @list ty base =>
      refine ⟨ty, base, rfl, rfl, fun head hoptional hlist => ?_⟩
      rw [FieldHead.wrapType, hoptional, hlist]
      rfl
  | @optional ty base =>
      refine ⟨ty, base, rfl, rfl, fun head hoptional hlist => ?_⟩
      have hinner : ty.optional.isList = ty.isList := rfl
      rw [FieldHead.wrapType, hoptional, hlist, hinner, base.isList_eq_false]
      rfl
  | @optionalList ty base =>
      refine ⟨ty, base, rfl, rfl, fun head hoptional hlist => ?_⟩
      rw [FieldHead.wrapType, hoptional, hlist]
      rfl

theorem Writable.isPlain_baseName {ty : TypeExpr} (h : ty.Writable) {name : String}
    (hname : ty.baseName? = some name) : IsPlain name := by
  obtain ⟨base, hbase, hsame, -⟩ := h.exists_base
  rw [← hsame] at hname
  cases hbase with
  | @scalar kind =>
      obtain rfl := Option.some.inj hname
      cases kind <;> decide
  | named _ plain =>
      obtain rfl := Option.some.inj hname
      exact plain
  | inline => cases hname

theorem Writable.eq_of_inPlace? {ty : TypeExpr} (h : ty.Writable) {r : RecordDecl}
    (hr : ty.inPlace? = some r) : r = { fields := r.fields } := by
  obtain ⟨base, hbase, -, hsame, -⟩ := h.exists_base
  rw [← hsame] at hr
  cases hbase with
  | scalar | named => cases hr
  | inline =>
      cases hr
      rfl

end TypeExpr

theorem writableFields_iff {fields : List FieldDecl} :
    WritableFields fields ↔
      ∀ f ∈ fields, f.Writable ∧ ∀ r, f.ty.inPlace? = some r → WritableFields r.fields := by
  rw [WritableFields, forall_encloses_iff]
  refine forall₂_congr fun f _ => and_congr_right fun _ => forall_congr' fun r => ?_
  exact imp_congr_left ⟨TypeExpr.inPlace?_of_wraps, TypeExpr.wraps_of_inPlace?⟩

namespace CatalogDocument

theorem fieldNode_eq (f : FieldDecl) :
    fieldNode f = .element (fieldHead f) (inPlaceNodes f.ty ++ f.validValues.map choiceNode) := by
  cases f
  rw [fieldNode]

theorem inPlaceNode_eq (r : RecordDecl) :
    inPlaceNode r = .element { name := "record" } (fieldNodes r.fields) := by
  cases r
  rw [inPlaceNode]

theorem inPlaceNodes_eq : ∀ ty : TypeExpr, inPlaceNodes ty = (ty.inPlace?.map inPlaceNode).toList
  | .optional inner => by
      rw [inPlaceNodes, TypeExpr.inPlace?]
      exact inPlaceNodes_eq inner
  | .list element => by
      rw [inPlaceNodes, TypeExpr.inPlace?]
      exact inPlaceNodes_eq element
  | .inline record => by
      rw [inPlaceNodes]
      rfl
  | .scalar _ | .named _ => by
      rw [inPlaceNodes]
      rfl

theorem fieldNodes_eq_map (fields : List FieldDecl) : fieldNodes fields = fields.map fieldNode := by
  induction fields with
  | nil => rw [fieldNodes, List.map_nil]
  | cons f rest ih => rw [fieldNodes, ih, List.map_cons]

theorem eq_nil_of_fieldNodes {fields : List FieldDecl} (h : fieldNodes fields = []) :
    fields = [] := by
  rwa [fieldNodes_eq_map, List.map_eq_nil_iff] at h

/-! ## Documents that can be written -/

theorem writable_of_keys (name : String) (keys : List String)
    {attributes : List (String × String)} (hname : Markup.IsName name)
    (hkeys : ∀ key ∈ keys, Markup.IsName key) (hnodup : keys.Nodup)
    (hsublist : (attributes.map Prod.fst).Sublist keys)
    (hvalues : ∀ a ∈ attributes, IsPlain a.2) :
    Element.Writable { name, attributes } where
  name := hname
  keys a ha := hkeys a.1 (hsublist.subset (List.mem_map_of_mem ha))
  nodup := hnodup.sublist hsublist
  values := hvalues

theorem isPlain_flagText (up : Bool) : IsPlain (flagText up) := by
  cases up <;> decide

theorem keys_type_sublist (name : Option String) :
    ((name.map (("type", ·))).toList.map Prod.fst).Sublist ["type"] := by
  cases name with
  | none => exact List.nil_sublist _
  | some name => exact List.Sublist.refl _

def tagKeys : List String := ["element", "attr", "chardata", "ignored", "omitempty"]

theorem keys_tag_sublist (tag : Option Tag) :
    ((tag.elim [] Tag.attributes).map Prod.fst).Sublist tagKeys := by
  have hnode : ∀ key ∈ ["element", "attr", "chardata", "ignored"],
      [key, "omitempty"].Sublist tagKeys := by decide
  cases tag with
  | none => exact List.nil_sublist _
  | some t =>
      obtain ⟨name, node, omitEmpty⟩ := t
      cases node with
      | element => exact hnode "element" (by decide)
      | attr => exact hnode "attr" (by decide)
      | charData => exact hnode "chardata" (by decide)
      | ignored => exact hnode "ignored" (by decide)

/-- The keys of a field's attributes, in their order. -/
def fieldKeys : List String := "name" :: ["type"] ++ "optional" :: "list" :: "exported" :: tagKeys

theorem keys_sublist (f : FieldDecl) :
    ((fieldHead f).attributes.map Prod.fst).Sublist fieldKeys := by
  have hflags := (((keys_tag_sublist f.tag).cons_cons "exported").cons_cons "list").cons_cons
    "optional"
  have hall := ((keys_type_sublist f.ty.baseName?).append hflags).cons_cons "name"
  simpa [fieldHead, fieldKeys] using hall

theorem isPlain_tag {tag : Option Tag} (h : ∀ t, tag = some t → t.Writable) :
    ∀ a ∈ tag.elim [] Tag.attributes, IsPlain a.2 := by
  cases tag with
  | none => exact fun a ha => by cases ha
  | some t =>
      have hplain := (h t rfl).plain
      obtain ⟨name, node, omitEmpty⟩ := t
      have htrue : IsPlain "true" := by decide
      cases node with
      | element | attr =>
          exact List.forall_mem_cons.2 ⟨hplain, List.forall_mem_singleton.2 (isPlain_flagText _)⟩
      | charData | ignored =>
          exact List.forall_mem_cons.2 ⟨htrue, List.forall_mem_singleton.2 (isPlain_flagText _)⟩

theorem writable_fieldHead {f : FieldDecl} (h : f.Writable) : (fieldHead f).Writable := by
  have hname : Markup.IsName (fieldTag f.embedded) := by
    cases f.embedded <;> decide
  refine writable_of_keys _ _ hname (by decide) (by decide) (keys_sublist f) ?_
  have htype : ∀ a ∈ (f.ty.baseName?.map (("type", ·))).toList, IsPlain a.2 := by
    intro a ha
    obtain ⟨name, hname, rfl⟩ := Option.map_eq_some_iff.1 (Option.mem_toList.1 ha)
    exact h.type.isPlain_baseName hname
  refine List.forall_mem_append.2 ⟨List.forall_mem_cons.2 ⟨h.plain, htype⟩, ?_⟩
  have hflag := isPlain_flagText
  exact List.forall_mem_cons.2 ⟨hflag _, List.forall_mem_cons.2 ⟨hflag _,
    List.forall_mem_cons.2 ⟨hflag _, isPlain_tag h.tag⟩⟩⟩

theorem writable_bare (name : String) (hname : Markup.IsName name) :
    Element.Writable { name } :=
  writable_of_keys name [] hname (fun key hkey => by cases hkey) List.nodup_nil
    (List.Sublist.refl _) fun a ha => by cases ha

theorem writable_choiceNode {value : String} (h : Markup.IsContent value) :
    (choiceNode value).Writable :=
  .leaf (writable_bare "choice" (by decide)) h

/-- The elements of fields that can be written can be written. -/
theorem writable_fieldNodes (fields : List FieldDecl) (h : WritableFields fields) :
    ∀ n ∈ fieldNodes fields, n.Writable := by
  induction fields using FieldDecl.nested_induction with
  | step fields ih =>
      intro n hn
      rw [fieldNodes_eq_map, List.mem_map] at hn
      obtain ⟨f, hf, rfl⟩ := hn
      obtain ⟨hwritable, hinner⟩ := writableFields_iff.1 h f hf
      rw [fieldNode_eq]
      refine .element (writable_fieldHead hwritable) (List.forall_mem_append.2 ⟨?_, ?_⟩)
      · intro n hn
        rw [inPlaceNodes_eq, Option.mem_toList] at hn
        obtain ⟨r, hr, rfl⟩ := Option.map_eq_some_iff.1 hn
        rw [inPlaceNode_eq]
        exact .element (writable_bare "record" (by decide))
          (ih f hf r (TypeExpr.wraps_of_inPlace? hr) (hinner r hr))
      · intro n hn
        obtain ⟨v, hv, rfl⟩ := List.mem_map.1 hn
        exact writable_choiceNode (hwritable.values v hv).1

theorem writable_recordElement {r : RecordDecl} (hname : IsPlain r.name)
    (hpackage : IsPlain r.package) (helement : ∀ e, r.element = some e → IsPlain e) :
    (recordElement r).Writable := by
  obtain ⟨name, package, element, fields⟩ := r
  have hkeys : ["name", "package"].Sublist ["name", "element", "package"] := by decide
  cases element with
  | none =>
      refine writable_of_keys "record" _ (by decide) (by decide) (by decide) hkeys ?_
      exact List.forall_mem_cons.2 ⟨hname, List.forall_mem_singleton.2 hpackage⟩
  | some e =>
      refine writable_of_keys "record" ["name", "element", "package"] (by decide) (by decide)
        (by decide) (List.Sublist.refl _) ?_
      exact List.forall_mem_cons.2 ⟨hname, List.forall_mem_cons.2
        ⟨helement e rfl, List.forall_mem_singleton.2 hpackage⟩⟩

theorem writable_catalogNode {c : Catalog} (h : c.Writable) : (catalogNode c).Writable := by
  have hhead : (catalogElement c).Writable :=
    writable_of_keys "catalog" ["package"] (by decide) (by decide) (by decide)
      (List.Sublist.refl _) (List.forall_mem_singleton.2 h.package)
  refine .element hhead fun n hn => ?_
  obtain ⟨r, hr, rfl⟩ := List.mem_map.1 hn
  obtain ⟨hname, hpackage, helement⟩ := h.plain r hr
  exact .element (writable_recordElement hname hpackage helement)
    (writable_fieldNodes r.fields (h.fields r hr))

end CatalogDocument

end RecordSchema
