import RecordSchema.Generation.Path
import RecordSchema.Proofs.Catalog.WellFormed
import RecordSchema.Proofs.Reflection.Block
import RecordSchema.Proofs.Reflection.OutputName
import RecordSchema.Proofs.Reflection.Refinement

/-!
# Attributes under their values

What is taken from the attributes of a value stands beside it in a struct and below it in documents.
The document paths agree only if the value is kept in an element, which reflection does not look at.
A valid catalog sees to it: an attribute holds a scalar, and only a reference to a record is ever
taken apart.
-/

namespace RecordSchema

/-- A field that shows in documents is one of the fields of the record, or of a record in place. -/
theorem DeclaresField.exists_encloses {fields : List FieldDecl} {d : FieldDecl}
    (h : DeclaresField fields d) :
    ∃ inner, Encloses fields inner ∧ d ∈ inner ∧ d.embedded = false := by
  induction h with
  | here mem _ plain => exact ⟨_, .refl, mem, plain⟩
  | @inline _ f _ _ mem _ _ type _ ih =>
      obtain ⟨inner, hinner, hd, hplain⟩ := ih
      exact ⟨inner, .inline mem (type ▸ f.ty.wraps_stripOptional) hinner, hd, hplain⟩

namespace Reflection

open Schema (Field Graph Struct)

variable {c : Catalog} {g : Graph} {f v : Field} {owner : String}
  {s : WalkState} {frames : List Frame}

/-! ## Where values are kept -/

/-- The declaration has been checked, with those of all records in place. -/
def Checked (c : Catalog) (r : RecordDecl) : Prop :=
  ∀ fields, Encloses r.fields fields → FieldsFit c fields

theorem checked_iff {r : RecordDecl} :
    Checked c r ↔ Validation.checkRecord c r.name r = .ok () := by
  cases r
  rw [Validation.checkRecord, Validation.checkFields_eq_ok_iff_forall]
  rfl

/-- A field that refers to a record is not kept in an attribute. -/
theorem Checked.isAttr_fieldOf {r : RecordDecl} (h : Checked c r) {d : FieldDecl} {tag : Tag}
    (hd : DeclaresField r.fields d) (htag : d.tag = some tag) {name : String}
    (hshape : d.ty.shape = .record name) (referent : Option Referent) :
    (fieldOf d tag (.record name) referent).isAttr = false := by
  obtain ⟨inner, hinner, hmem, hplain⟩ := hd.exists_encloses
  have hattr : tag.isAttribute = false := by
    by_contra htrue
    have hnode : d.node? = some .attr := by
      rw [FieldDecl.node?, htag, Option.map_some, Option.some_inj]
      simpa [Tag.isAttribute] using htrue
    obtain ⟨kind, hkind⟩ := (h inner hinner).scalar_in_node d hmem hplain (.inl hnode)
    rw [TypeExpr.shape, hkind] at hshape
    cases hshape
  rcases referent with _ | trace | ⟨id, target⟩
  · exact hattr
  · exact hattr
  · rw [fieldOf, recordField]
    split <;> exact hattr

/-- The value that comes from a field is kept where the field is. -/
theorem isAttr_of_mem_finishField (hf : f.pattern ≠ .flattenedValue)
    (hmem : v ∈ finishField g owner f) (hvalue : v.pattern = .flattenedValue) :
    f.isFlattenMarker = true ∧ v.isAttr = f.isAttr := by
  rw [finishField_eq, List.mem_map] at hmem
  obtain ⟨e, he, rfl⟩ := hmem
  rw [overrideField_eq] at hvalue ⊢
  rw [expandField] at he
  split at he
  · rename_i p hexpansion
    rcases List.mem_cons.1 he with rfl | ha
    · refine ⟨?_, rfl⟩
      by_contra hmarker
      rw [expansion?, if_neg hmarker] at hexpansion
      cases hexpansion
    · obtain ⟨a, -, rfl⟩ := List.mem_map.1 ha
      cases hvalue
  · rw [List.mem_singleton.1 he] at hvalue
    exact absurd hvalue hf

/-- The values that a step gives in the end are kept in elements, if those of the structs are. -/
theorem isAttr_of_mem_finishedFields {guard : CycleGuard} {r : RecordDecl} (h : Checked c r)
    {step : BodyStep} (hg : g.Indexed) (hstep : step ∈ bodySteps r.fields)
    (hvalues : ∀ t ∈ g.structs, ∀ f ∈ t.fields, f.pattern = .flattenedValue → f.isAttr = false)
    (hmem : v ∈ finishedFields g guard owner step) (hvalue : v.pattern = .flattenedValue) :
    v.isAttr = false := by
  rcases of_mem_bodySteps hstep with ⟨d, tag, hd, htag, hitem⟩ | ⟨e, -, hitem⟩
  · rw [finishedFields, hitem] at hmem
    have hpattern := pattern_fieldOf d tag d.ty.shape
      (d.ty.shape.reference?.bind (referent? g guard))
    obtain ⟨hmarker, hattr⟩ := isAttr_of_mem_finishField
      (fun h => by rw [h] at hpattern; simp at hpattern) hmem hvalue
    rw [hattr]
    cases hshape : d.ty.shape with
    | record name => exact h.isAttr_fieldOf hd htag hshape _
    | _ =>
        rw [hshape, isFlattenMarker_fieldOf _ _ _ (by simp)] at hmarker
        cases hmarker
  · obtain ⟨t, ht, f, hf, rfl⟩ := exists_of_mem_finishedFields hitem hmem
    rw [overrideField_eq] at hvalue ⊢
    exact hvalues t (hg.mem_of_find? ht).1 f hf hvalue

/-- In every state that a walk over checked declarations passes, values with attributes are kept in
elements. -/
theorem Grown.isAttr_of_flattenedValue (h : Grown c (Checked c) s frames) :
    ∀ t ∈ s.graph.structs, ∀ v ∈ t.fields, v.pattern = .flattenedValue → v.isAttr = false := by
  refine h.forall_structs
    (motive := fun _ _ fields => ∀ v ∈ fields, v.pattern = .flattenedValue → v.isAttr = false)
    (fun _ _ v hv => by cases hv) (fun _ _ _ _ _ hvalues => hvalues)
    fun s frames frame h hframe _ hvalues v hv hvalue => ?_
  obtain ⟨step, hstep, hv⟩ := List.mem_flatMap.1 hv
  exact isAttr_of_mem_finishedFields (h.known_decl hframe) h.indexed hstep hvalues hv hvalue

end Reflection

/-! ## Paths -/

namespace Generation

open Reflection (Checked attributeField checked_iff flattenSeparator leadingAttributes)
open Reflection.Reflector (after memoryCatalog)
open Schema (AttributeInfo Field Struct)

variable {v : Field}

/-- An attribute of a value that is kept in an element has the path of that element in front. -/
theorem xmlPath_attributeField (hname : v.xmlName ≠ "") (hvalue : v.pattern = .flattenedValue)
    (hattr : v.isAttr = false) (parent : String) (a : AttributeInfo) :
    xmlPath parent (attributeField v a) = xmlPath parent v ++ ".@" ++ a.xmlName := by
  have hnode : ¬v.xmlName.isEmpty = true := by rwa [String.isEmpty_iff]
  have hplain : v.flattenedAttribute? = none := by rw [Field.flattenedAttribute?, hvalue]
  have hvaluePath : xmlPath parent v = s!"{parent}.{v.xmlName}" := by
    rw [xmlPath, hplain, nodeName, if_neg hnode]
    exact if_neg (by rw [hattr]; exact Bool.false_ne_true)
  have hattrNode : nodeName (attributeField v a) = v.xmlName := if_neg hnode
  rw [hvaluePath]
  change s!"{parent}.{nodeName (attributeField v a)}.@{a.xmlName}" = _
  rw [hattrNode]
  simp [toString]

/-- The output name of an attribute has that of the value in front, and so do the paths. -/
theorem outputPath_attributeField (v : Field) (parent : String) (a : AttributeInfo) :
    outputPath parent (attributeField v a) =
      outputPath parent v ++ flattenSeparator ++ Text.snakeCase a.xmlName := by
  simp [outputPath, attributeField, toString, ← String.toList_inj]

/-- In the structs of a valid catalog the attributes of a value stand under it.  There is one field
for each attribute of the record's pattern; its document path is that of the value with the name of
the attribute behind it, and its output path is that of the value with this name in snake case. -/
theorem after_attributePaths {c : Catalog} (hvalid : c.validate = .ok ())
    (calls : List Reflection.Call)
    (hcalls : ∀ r, .reflectRecord r ∈ calls → Validation.checkRecord c r.name r = .ok ())
    {t : Struct} (ht : t ∈ (after c calls).graph.structs) {front back : List Field}
    (hfields : t.fields = front ++ v :: back) (hvalue : v.pattern = .flattenedValue)
    (hname : v.xmlName ≠ "") :
    ∃ s p, (after c calls).graph.target? v = some s ∧ s.pattern = .valueWithUnit p ∧
      List.Forall₂ (fun a info =>
        a.flattenedAttribute? = some info.xmlName ∧
        ∀ parent, xmlPath parent a = xmlPath parent v ++ ".@" ++ info.xmlName ∧
          outputPath parent a =
            outputPath parent v ++ flattenSeparator ++ Text.snakeCase info.xmlName)
        (leadingAttributes back) p.attributes := by
  have hchecked : ∀ r ∈ c.records, Checked c r := c.validate_eq_ok_iff_wellFormed.1 hvalid
  obtain ⟨frames, h⟩ :=
    Reflection.Reflector.after_grown hchecked calls fun r hr => checked_iff.2 (hcalls r hr)
  have hmem : v ∈ t.fields := by
    rw [hfields]
    exact List.mem_append_right _ List.mem_cons_self
  have hattr := h.isAttr_of_flattenedValue t ht v hmem hvalue
  obtain ⟨form, hform⟩ := h.formed t ht v hmem
  obtain rfl : form = .flattenedValue := by rw [hform.eq_form, Field.form, hvalue]
  cases hform with
  | @flattenedValue s p target _ _ _ plain _ =>
      refine ⟨s, p, target, plain, ?_⟩
      rw [(h.blocks t ht).leadingAttributes_eq hfields hvalue target plain,
        List.forall₂_map_left_iff, List.forall₂_same]
      intro info _
      exact ⟨rfl, fun parent => ⟨xmlPath_attributeField hname hvalue hattr parent info,
        outputPath_attributeField v parent info⟩⟩

/-- The unit of an amount of memory is an attribute of its element. -/
theorem after_attributePaths_memory :
    ∃ t ∈ (after memoryCatalog [.reflect "Domain"]).graph.structs, ∃ v a,
      t.fields = [v, a] ∧ xmlPath "domain" v = "domain.memory" ∧
      xmlPath "domain" a = xmlPath "domain" v ++ ".@" ++ "unit" ∧
      outputPath "domain" a =
        outputPath "domain" v ++ flattenSeparator ++ Text.snakeCase "unit" := by
  have hstruct : ∃ t ∈ (after memoryCatalog [.reflect "Domain"]).graph.structs, ∃ v ∈ t.fields,
      ∃ a ∈ t.fields, t.fields = [v, a] ∧ v.pattern = .flattenedValue ∧ v.xmlName = "memory" ∧
        xmlPath "domain" v = "domain.memory" ∧ leadingAttributes [a] = [a] ∧
        a.flattenedAttribute? = some "unit" := by
    decide +kernel
  obtain ⟨t, ht, v, -, a, -, hfields, hvalue, hname, hpath, hlead, hattr⟩ := hstruct
  have hcalls : ∀ r, .reflectRecord r ∈ [Reflection.Call.reflect "Domain"] →
      Validation.checkRecord memoryCatalog r.name r = .ok () := by
    intro r hr
    rcases List.mem_singleton.1 hr with ⟨⟩
  have hblockOf : t.fields = [] ++ v :: [a] := hfields
  obtain ⟨s, p, -, -, hblock⟩ := after_attributePaths (by rfl) _ hcalls ht hblockOf hvalue
    (by rw [hname]; decide)
  rw [hlead] at hblock
  obtain ⟨info, _, ⟨hinfo, hpaths⟩, -, -⟩ := List.forall₂_cons_left_iff.1 hblock
  rw [← Option.some.inj (hattr.symm.trans hinfo)] at hpaths
  exact ⟨t, ht, v, a, hfields, hpath, hpaths "domain"⟩

end Generation

end RecordSchema
