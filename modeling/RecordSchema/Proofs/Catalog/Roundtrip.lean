import RecordSchema.Proofs.Catalog.Reading
import RecordSchema.Proofs.Catalog.Writing

/-!
# Reading written catalogs

The reader puts a catalog together from what its document says in many places: a type from a name,
two flags and perhaps an inner element, a tag from the key that its name is under.  From the
document that a catalog is written to it makes the same catalog.
-/

namespace RecordSchema

open Markup (Element Event Node eventLines)

namespace CatalogDocument

/-! ## Heads -/

/-- What the reader has of a field when it has read the attributes. -/
def readHead (f : FieldDecl) : FieldHead where
  embedded := f.embedded
  name := f.name
  typeName := f.ty.baseName?
  optional := f.ty.isOptional
  list := f.ty.isList
  node := f.tag.map fun t => (t.node, t.name)
  omitEmpty := f.tag.elim false Tag.omitEmpty
  exported := f.exported

theorem foldlM_note_type (head : FieldHead) (name : Option String) :
    (name.map (("type", ·))).toList.foldlM FieldHead.note head =
      .ok { head with typeName := name <|> head.typeName } := by
  cases name <;> rfl

theorem foldlM_note_flags (head : FieldHead) (optional list exported : Bool)
    (rest : List (String × String)) :
    (("optional", flagText optional) :: ("list", flagText list) ::
      ("exported", flagText exported) :: rest).foldlM FieldHead.note head =
      rest.foldlM FieldHead.note { head with optional, list, exported } := by
  cases optional <;> cases list <;> cases exported <;> rfl

/-- A tag is read back into a head that has none. -/
theorem foldlM_note_tag {tag : Option Tag} (h : ∀ t, tag = some t → t.Writable) {head : FieldHead}
    (hnode : head.node = none) (homit : head.omitEmpty = false) :
    (tag.elim [] Tag.attributes).foldlM FieldHead.note head =
      .ok { head with
        node := tag.map fun t => (t.node, t.name)
        omitEmpty := tag.elim false Tag.omitEmpty } := by
  obtain ⟨embedded, name, typeName, optional, list, node, omitEmpty, exported⟩ := head
  subst hnode homit
  cases tag with
  | none => rfl
  | some t =>
      obtain ⟨-, hcharData, hignored⟩ := h t rfl
      obtain ⟨name, node, omitEmpty⟩ := t
      cases node with
      | element => cases omitEmpty <;> rfl
      | attr => cases omitEmpty <;> rfl
      | charData =>
          obtain rfl : name = "" := hcharData rfl
          cases omitEmpty <;> rfl
      | ignored =>
          obtain rfl : name = "" := hignored rfl
          cases omitEmpty <;> rfl

theorem ofElement_fieldHead {f : FieldDecl} (h : ∀ t, f.tag = some t → t.Writable) :
    FieldHead.ofElement f.embedded (fieldHead f) = .ok (readHead f) := by
  have hname : FieldHead.note { embedded := f.embedded } ("name", f.name) =
      .ok { embedded := f.embedded, name := f.name } := rfl
  rw [FieldHead.ofElement, fieldHead, List.cons_append, List.foldlM_cons, hname]
  change List.foldlM FieldHead.note _ _ = _
  rw [List.foldlM_append, foldlM_note_type]
  change List.foldlM FieldHead.note _ _ = _
  rw [foldlM_note_flags, foldlM_note_tag h rfl rfl]
  cases hf : f.ty.baseName? <;> rw [readHead, hf] <;> rfl

/-! ## Fields -/

theorem ofName?_name (kind : ScalarKind) : ScalarKind.ofName? kind.name = some kind := by
  cases kind <;> rfl

/-- The base of a type is read back from its name or from the record declared in place. -/
theorem hasBase_of_isBase {ty : TypeExpr} (h : ty.IsBase) {head : FieldHead}
    (hname : head.typeName = ty.baseName?) : head.HasBase ty.inPlace? ty := by
  cases h with
  | @scalar kind => exact .scalar hname (ofName?_name kind)
  | named not_scalar => exact .named hname not_scalar
  | inline => exact .inline hname

/-- A type is read back from its name, its flags and the record declared in place. -/
theorem exists_hasBase (head : FieldHead) {ty : TypeExpr} (h : ty.Writable)
    (hname : head.typeName = ty.baseName?) (hoptional : head.optional = ty.isOptional)
    (hlist : head.list = ty.isList) :
    ∃ base, head.HasBase ty.inPlace? base ∧ head.wrapType base = ty := by
  obtain ⟨base, hbase, hbaseName, hinPlace, hwrap⟩ := h.exists_base
  rw [← hbaseName] at hname
  rw [← hinPlace]
  exact ⟨base, hasBase_of_isBase hbase hname, hwrap head hoptional hlist⟩

/-- A name that is not empty passes the readers' check. -/
theorem filter_name_of_ne {name : String} (h : name ≠ "") :
    (some name).filter (!·.isEmpty) = some name := by
  rw [Option.filter_some, if_pos]
  simpa using h

/-- A field is read back from its head, its choices and the record declared in place. -/
theorem finish_readHead {f : FieldDecl} (h : f.Writable) :
    OpenField.finish
      { head := readHead f, choices := f.validValues, inline := f.ty.inPlace? } = .ok f := by
  obtain ⟨base, hbase, hwrap⟩ := exists_hasBase (readHead f) h.type rfl rfl rfl
  have hname : (readHead f).HasName f.ty f.name := by
    cases hembedded : f.embedded with
    | true => exact .embedded hembedded
    | false => exact .own hembedded rfl (h.named hembedded)
  rw [← hwrap] at hname
  refine OpenField.finish_eq_ok_iff.2 ⟨base, f.name, hbase, hname, ?_⟩
  rw [hwrap]
  obtain ⟨name, ty, tag, exported, embedded, values⟩ := f
  cases tag <;> rfl

/-! ## Reading elements -/

variable {p p₀ p₁ p₂ : Position} {owner : Owner} {before : List FieldDecl}

theorem runs_singleton_iff {ev : Event} : Runs p [ev] p₁ ↔ p.step ev = .ok p₁ := by
  rw [runs_cons_iff]
  constructor
  · rintro ⟨_, hstep, hnil⟩
    rwa [runs_nil_iff.1 hnil] at hstep
  · exact fun hstep => ⟨p₁, hstep, runs_nil_iff.2 rfl⟩

/-- An element is read by its start tag, its inner elements and its end tag, or by one tag. -/
theorem runs_element {head : Element} {children : List Node}
    (hempty : children = [] → p.step (.selfClosing head) = .ok p₂)
    (hopening : p.step (.opening head) = .ok p₀) (hlines : Runs p₀ (eventLines children) p₁)
    (hnewline : p₁.step (.text "\n") = .ok p₁) (hclosing : p₁.step (.closing head.name) = .ok p₂) :
    Runs p (Node.element head children).events p₂ := by
  rw [Node.events]
  split
  · rename_i hnil
    exact runs_singleton_iff.2 (hempty (List.isEmpty_iff.1 hnil))
  · rw [List.cons_append, runs_cons_iff]
    refine ⟨p₀, hopening, runs_append_iff.2 ⟨p₁, hlines, ?_⟩⟩
    exact runs_cons_iff.2 ⟨p₁, hnewline, runs_singleton_iff.2 hclosing⟩

theorem runs_eventLines_cons {n : Node} {rest : List Node}
    (hnewline : p.step (.text "\n") = .ok p) (hnode : Runs p n.events p₁)
    (hrest : Runs p₁ (eventLines rest) p₂) : Runs p (eventLines (n :: rest)) p₂ := by
  rw [eventLines, List.cons_append, runs_cons_iff]
  exact ⟨p, hnewline, runs_append_iff.2 ⟨p₁, hnode, hrest⟩⟩

/-- A choice adds its value. -/
theorem runs_choiceNode {field : OpenField} {value : String} (h : Text.trim value = value) :
    Runs (.field owner before field) (choiceNode value).events
      (.field owner before { field with choices := field.choices ++ [value] }) := by
  have htext : (Position.choice owner before field "").step (.text value) =
      .ok (.choice owner before field value) := by
    simp only [Position.step, stepChoice, h, String.empty_append]
  rw [choiceNode, Node.events, runs_cons_iff]
  refine ⟨.choice owner before field "", rfl, runs_cons_iff.2 ⟨_, htext, ?_⟩⟩
  exact runs_singleton_iff.2 rfl

theorem runs_choices (field : OpenField) {values : List String}
    (h : ∀ v ∈ values, Text.trim v = v) :
    Runs (.field owner before field) (eventLines (values.map choiceNode))
      (.field owner before { field with choices := field.choices ++ values }) := by
  induction values generalizing field with
  | nil =>
      rw [List.append_nil]
      exact runs_nil_iff.2 rfl
  | cons v values ih =>
      obtain ⟨hv, hvalues⟩ := List.forall_mem_cons.1 h
      have hrest := ih { field with choices := field.choices ++ [v] } hvalues
      rw [List.append_assoc] at hrest
      exact runs_eventLines_cons rfl (runs_choiceNode hv) hrest

/-- A record declared in place is the type of its field. -/
theorem runs_inPlaceNode {field : OpenField} {r : RecordDecl}
    (h : Runs (.fields (.inline owner before field) []) (eventLines (fieldNodes r.fields))
      (.fields (.inline owner before field) r.fields)) :
    Runs (.field owner before field) (inPlaceNode r).events
      (.field owner before { field with inline := some { fields := r.fields } }) := by
  rw [inPlaceNode_eq]
  refine runs_element (fun hnil => ?_) rfl h rfl rfl
  rw [eq_nil_of_fieldNodes hnil]
  rfl

/-- The fields of a record are read one by one. -/
def ReadBack (fields : List FieldDecl) : Prop :=
  ∀ owner before, Runs (.fields owner before) (eventLines (fieldNodes fields))
    (.fields owner (before ++ fields))

/-- The inner elements of a field give what its attributes leave open. -/
theorem runs_fieldContent {f : FieldDecl} (hf : f.Writable) {head : FieldHead}
    (hinner : ∀ r, f.ty.inPlace? = some r → ReadBack r.fields) :
    Runs (.field owner before { head })
      (eventLines (inPlaceNodes f.ty ++ f.validValues.map choiceNode))
      (.field owner before { head, choices := f.validValues, inline := f.ty.inPlace? }) := by
  have hvalues : ∀ v ∈ f.validValues, Text.trim v = v := fun v hv => (hf.values v hv).2
  rw [inPlaceNodes_eq]
  cases hr : f.ty.inPlace? with
  | none => exact runs_choices _ hvalues
  | some r =>
      have hinPlace := runs_inPlaceNode (hinner r hr (.inline owner before { head }) [])
      rw [← hf.type.eq_of_inPlace? hr] at hinPlace
      exact runs_eventLines_cons rfl hinPlace (runs_choices _ hvalues)

theorem step_fieldHead_opening {f : FieldDecl} (hf : f.Writable) :
    (Position.fields owner before).step (.opening (fieldHead f)) =
      .ok (.field owner before { head := readHead f }) := by
  have hread := ofElement_fieldHead hf.tag
  have hstep : (Position.fields owner before).step (.opening (fieldHead f)) =
      (do
        return .field owner before
          { head := ← FieldHead.ofElement f.embedded (fieldHead f) }) := by
    rw [Position.step, fieldHead]
    cases f.embedded <;> rfl
  rw [hstep, hread]
  rfl

/-- A field without inner elements is read from its tag. -/
theorem step_fieldHead_selfClosing {f : FieldDecl} (hf : f.Writable)
    (hempty : inPlaceNodes f.ty ++ f.validValues.map choiceNode = []) :
    (Position.fields owner before).step (.selfClosing (fieldHead f)) =
      .ok (.fields owner (before ++ [f])) := by
  have hread := ofElement_fieldHead hf.tag
  obtain ⟨hinPlace, hvalues⟩ := List.append_eq_nil_iff.1 hempty
  rw [inPlaceNodes_eq, Option.toList_eq_nil_iff, Option.map_eq_none_iff] at hinPlace
  have hfinish := finish_readHead hf
  rw [List.map_eq_nil_iff.1 hvalues, hinPlace] at hfinish
  have hstep : (Position.fields owner before).step (.selfClosing (fieldHead f)) =
      (do return .fields owner (before ++ [← emptyField f.embedded (fieldHead f)])) := by
    rw [Position.step, fieldHead]
    cases f.embedded <;> rfl
  have hdecl : emptyField f.embedded (fieldHead f) = .ok f := by
    rw [emptyField, hread]
    exact hfinish
  rw [hstep, hdecl]
  rfl

theorem runs_fieldNode {f : FieldDecl} (hf : f.Writable)
    (hinner : ∀ r, f.ty.inPlace? = some r → ReadBack r.fields) :
    Runs (.fields owner before) (fieldNode f).events (.fields owner (before ++ [f])) := by
  have hclosing : (Position.field owner before
      { head := readHead f, choices := f.validValues, inline := f.ty.inPlace? }).step
        (.closing (fieldHead f).name) = .ok (.fields owner (before ++ [f])) := by
    simp only [Position.step, stepField, finish_readHead hf]
    rfl
  rw [fieldNode_eq]
  exact runs_element (step_fieldHead_selfClosing hf) (step_fieldHead_opening hf)
    (runs_fieldContent hf hinner) rfl hclosing

theorem readBack_of_forall {fields : List FieldDecl}
    (h : ∀ f ∈ fields, ∀ owner before,
      Runs (.fields owner before) (fieldNode f).events (.fields owner (before ++ [f]))) :
    ReadBack fields := by
  intro owner before
  induction fields generalizing before with
  | nil =>
      rw [fieldNodes, List.append_nil]
      exact runs_nil_iff.2 rfl
  | cons f rest ih =>
      obtain ⟨hf, hrest⟩ := List.forall_mem_cons.1 h
      have hlines := ih hrest (before ++ [f])
      rw [List.append_assoc] at hlines
      rw [fieldNodes]
      exact runs_eventLines_cons rfl (hf owner before) hlines

/-- Fields that can be written are read back. -/
theorem readBack (fields : List FieldDecl) (h : WritableFields fields) :
    ReadBack fields := by
  induction fields using FieldDecl.nested_induction with
  | step fields ih =>
      refine readBack_of_forall fun f hf owner before => ?_
      obtain ⟨hwritable, hinner⟩ := writableFields_iff.1 h f hf
      exact runs_fieldNode hwritable fun r hr =>
        ih f hf r (TypeExpr.wraps_of_inPlace? hr) (hinner r hr)

/-! ## Records -/

theorem recordHead_recordElement (package : String) {r : RecordDecl} (h : r.name ≠ "") :
    recordHead package (recordElement r) = .ok { r with fields := [] } := by
  obtain ⟨name, recordPackage, element, fields⟩ := r
  have hlookup : ((recordElement ⟨name, recordPackage, element, fields⟩).attributes.lookup
      "name") = some name := rfl
  rw [recordHead, hlookup, filter_name_of_ne h]
  cases element <;> rfl

theorem exists_addRecord {c : Catalog} {r : RecordDecl} (h : r.name ∉ c.names) :
    ∃ c', addRecord c r = .ok c' ∧ c'.package = c.package ∧ c'.records = c.records ++ [r] := by
  rw [addRecord, Catalog.insert?, dif_neg h]
  exact ⟨_, rfl, rfl, rfl⟩

section

variable {c c' : Catalog} {e : Element} {r : RecordDecl} {fields : List FieldDecl}

theorem step_record_opening (he : e.name = "record") (hhead : recordHead c.package e = .ok r) :
    (Position.top c).step (.opening e) = .ok (.fields (.record c r) []) := by
  rw [Position.step, stepTop]
  simp only [he, hhead]
  rfl

theorem step_record_selfClosing (he : e.name = "record") (hhead : recordHead c.package e = .ok r)
    (hadd : addRecord c r = .ok c') :
    (Position.top c).step (.selfClosing e) = .ok (.top c') := by
  rw [Position.step, stepTop]
  simp only [he, hhead]
  change (do return Position.top (← addRecord c r)) = _
  rw [hadd]
  rfl

theorem step_record_closing {name : String} (hadd : addRecord c { r with fields } = .ok c') :
    (Position.fields (.record c r) fields).step (.closing name) = .ok (.top c') := by
  rw [Position.step, stepFields, closeFields, hadd]
  rfl

/-- A record is added to the catalog. -/
theorem runs_recordNode (hnamed : r.name ≠ "") (hfields : ReadBack r.fields)
    (hadd : addRecord c r = .ok c') : Runs (.top c) (recordNode r).events (.top c') := by
  have hhead := recordHead_recordElement c.package hnamed
  obtain ⟨name, package, element, fields⟩ := r
  refine runs_element (fun hnil => ?_) (step_record_opening rfl hhead) (hfields _ []) rfl
    (step_record_closing hadd)
  obtain rfl : fields = [] := eq_nil_of_fieldNodes hnil
  exact step_record_selfClosing rfl hhead hadd

end

/-- Records with new names are added in their order. -/
theorem exists_runs_records {records : List RecordDecl} {c : Catalog}
    (hnodup : (c.names ++ records.map RecordDecl.name).Nodup)
    (hnamed : ∀ r ∈ records, r.name ≠ "") (hfields : ∀ r ∈ records, ReadBack r.fields) :
    ∃ c' : Catalog, Runs (.top c) (eventLines (records.map recordNode)) (.top c') ∧
      c'.package = c.package ∧ c'.records = c.records ++ records := by
  induction records generalizing c with
  | nil => exact ⟨c, runs_nil_iff.2 rfl, rfl, (List.append_nil _).symm⟩
  | cons r rest ih =>
      obtain ⟨hname, hnamed⟩ := List.forall_mem_cons.1 hnamed
      obtain ⟨hr, hfields⟩ := List.forall_mem_cons.1 hfields
      have hnew : r.name ∉ c.names := fun hmem =>
        (List.nodup_append.1 hnodup).2.2 r.name hmem r.name List.mem_cons_self rfl
      obtain ⟨c₁, hadd, hpackage, hrecords⟩ := exists_addRecord hnew
      have hnames : c₁.names ++ rest.map RecordDecl.name =
          c.names ++ (r :: rest).map RecordDecl.name := by
        rw [Catalog.names, hrecords, List.map_append, List.append_assoc]
        rfl
      -- all names together stay the same: `r` goes from the records still to come to the catalog
      obtain ⟨c', hrun, hpackage', hrecords'⟩ := ih (hnames ▸ hnodup) hnamed hfields
      refine ⟨c', runs_eventLines_cons rfl (runs_recordNode hname hr hadd) hrun,
        hpackage'.trans hpackage, ?_⟩
      rw [hrecords', hrecords, List.append_assoc]
      rfl

theorem eq_of_records_eq {c c' : Catalog} (hpackage : c'.package = c.package)
    (hrecords : c'.records = c.records) : c' = c := by
  cases c
  cases c'
  cases hpackage
  cases hrecords
  rfl

/-- The events of a catalog's document are read back. -/
theorem runs_catalogNode {c : Catalog} (h : c.Writable) :
    Runs (.top none) (catalogNode c).events (.top c) := by
  have hfields : ∀ r ∈ c.records, ReadBack r.fields := fun r hr =>
    readBack r.fields (h.fields r hr)
  obtain ⟨c', hrun, hpackage, hrecords⟩ :=
    exists_runs_records (c := .empty c.package) c.nodup h.named hfields
  obtain rfl : c' = c := eq_of_records_eq hpackage hrecords
  refine runs_element (fun hnil => ?_) rfl hrun rfl rfl
  have hempty : Catalog.empty c'.package = c' :=
    eq_of_records_eq rfl (List.map_eq_nil_iff.1 hnil).symm
  rw [← hempty]
  rfl

end CatalogDocument

/-- A catalog is read back from the document that it is written to. -/
theorem Catalog.parse_write {c : Catalog} (h : c.Writable) : Catalog.parse c.write = .ok c := by
  rw [parse, write, (CatalogDocument.writable_catalogNode h).events_write]
  exact CatalogDocument.ofEvents_eq_ok_iff.2 (CatalogDocument.runs_catalogNode h)

-- properties that a reader takes for granted are written too
example :
    Catalog.write
        { package := "time"
          records :=
            [{ name := "Timer"
               fields :=
                [{ name := "Mode", ty := .optional (.scalar .string)
                   tag := some { name := "mode", node := .attr }, validValues := ["auto"] }] }]
          nodup := by decide } =
      "\n".intercalate
        ["<catalog package=\"time\">",
         "<record name=\"Timer\" package=\"\">",
         "<field name=\"Mode\" type=\"string\" optional=\"true\" list=\"false\"" ++
           " exported=\"true\" attr=\"mode\" omitempty=\"false\">",
         "<choice>auto</choice>",
         "</field>",
         "</record>",
         "</catalog>"] := by
  decide +kernel

/-- How far a clock is shifted; a limit, declared in place, is not shown. -/
def shiftFields : List FieldDecl :=
  [{ name := "Seconds", ty := .scalar .int64, tag := some { name := "", node := .charData } },
   .embed (.inline
    { fields := [{ name := "limit", ty := .optional (.scalar .uint), exported := false }] })]

def clockFields : List FieldDecl :=
  [{ name := "Offset", ty := .scalar .string
     tag := some { name := "offset", node := .attr, omitEmpty := true }
     validValues := ["utc", "localtime"] },
   { name := "Timers", ty := .optional (.list (.named "Timer"))
     tag := some { name := "timer", node := .element } },
   { name := "Shifts", ty := .list (.inline { fields := shiftFields })
     tag := some { name := "shift", node := .element } },
   { name := "Notes", ty := .scalar .string, tag := some { name := "", node := .ignored } },
   .embed (.named "Common")]

def clockCatalog : Catalog where
  package := "time"
  records :=
    [{ name := "Clock", element := some "clock", fields := clockFields },
     { name := "Timer", package := "timers" }]
  nodup := by decide

theorem shiftFields_writable : WritableFields shiftFields := by
  have hlimit : WritableFields
      [{ name := "limit", ty := .optional (.scalar .uint), exported := false }] := by
    refine writableFields_iff.2 (List.forall_mem_singleton.2 ⟨?_, fun r hr => by cases hr⟩)
    exact ⟨by decide, by decide, .optional .scalar, by decide, by decide⟩
  refine writableFields_iff.2 (List.forall_mem_cons.2
    ⟨⟨?_, fun r hr => by cases hr⟩, List.forall_mem_singleton.2 ⟨?_, fun r hr => ?_⟩⟩)
  · exact ⟨by decide, by decide, .base .scalar, by decide, by decide⟩
  · exact ⟨by decide, by decide, .base .inline, by decide, by decide⟩
  · obtain rfl := Option.some.inj hr
    exact hlimit

theorem clockFields_writable : WritableFields clockFields := by
  rw [writableFields_iff, clockFields]
  simp only [List.forall_mem_cons]
  refine ⟨⟨?_, fun r hr => by cases hr⟩, ⟨?_, fun r hr => by cases hr⟩, ⟨?_, fun r hr => ?_⟩,
    ⟨?_, fun r hr => by cases hr⟩, ⟨?_, fun r hr => by cases hr⟩, fun f hf => by cases hf⟩
  · exact ⟨by decide, by decide, .base .scalar, by decide, by decide⟩
  · exact ⟨by decide, by decide, .optionalList (.named (by decide) (by decide)), by decide,
      by decide⟩
  · exact ⟨by decide, by decide, .list .inline, by decide, by decide⟩
  · obtain rfl := Option.some.inj hr
    exact shiftFields_writable
  · exact ⟨by decide, by decide, .base .scalar, by decide, by decide⟩
  · exact ⟨by decide, by decide, .base (.named (by decide) (by decide)), by decide, by decide⟩

theorem clockCatalog_writable : clockCatalog.Writable where
  package := by decide
  named := by decide
  plain := by decide
  fields := by
    refine List.forall_mem_cons.2 ⟨clockFields_writable, List.forall_mem_singleton.2 ?_⟩
    exact writableFields_iff.2 fun f hf => by cases hf

theorem Catalog.parse_write_clock :
    clockCatalog.Writable ∧ Catalog.parse clockCatalog.write = .ok clockCatalog :=
  ⟨clockCatalog_writable, parse_write clockCatalog_writable⟩

end RecordSchema
