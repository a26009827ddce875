import Mathlib.Data.List.Forall2
import RecordSchema.Proofs.Reflection.Override

/-!
# Expansion in blocks

Expansion puts a block in the place of every field: for a marker that refers to a value with
attributes the value and a field for each attribute, for any other field the field itself.  In the
blocks nothing is left that could be expanded, so a second pass keeps everything.
-/

namespace RecordSchema.Reflection

open Schema (AttributeInfo Field Graph ValueWithUnit)

variable {g : Graph} {f f' : Field} {p : ValueWithUnit} {fields : List Field}

/-- A marker that refers to a struct of the graph with the pattern `p`. -/
def Expandable (g : Graph) (f : Field) (p : ValueWithUnit) : Prop :=
  f.isFlattenMarker = true ∧ ∃ t, g.target? f = some t ∧ t.pattern = .valueWithUnit p

theorem expansion?_eq_some_iff : expansion? g f = some p ↔ Expandable g f p := by
  rw [expansion?, Expandable]
  constructor
  · intro h
    split at h
    · rename_i hmarker
      obtain ⟨t, ht, hp⟩ := Option.bind_eq_some_iff.1 h
      refine ⟨hmarker, t, ht, ?_⟩
      rw [Schema.Struct.valueWithUnit?] at hp
      split at hp
      · rename_i hpattern
        rw [hpattern, Option.some.inj hp]
      · cases hp
    · cases h
  · rintro ⟨hmarker, t, ht, hpattern⟩
    rw [if_pos hmarker, ht, Option.bind_some, Schema.Struct.valueWithUnit?, hpattern]

theorem expansion?_eq_none_iff : expansion? g f = none ↔ ∀ p, ¬Expandable g f p := by
  simp only [Option.eq_none_iff_forall_ne_some, ne_eq, expansion?_eq_some_iff]

theorem not_expandable_of_not_marker (h : f.isFlattenMarker = false) (p : ValueWithUnit) :
    ¬Expandable g f p := by
  rintro ⟨hmarker, -⟩
  rw [h] at hmarker
  cases hmarker

/-! ## Blocks -/

/-- The field of the attribute `a` of the value that `marker` refers to. -/
structure ShowsAttribute (marker : Field) (a : AttributeInfo) (f : Field) : Prop where
  name : f.name = marker.name ++ a.name
  xmlName : f.xmlName = marker.xmlName
  outputName : f.outputName = marker.outputName ++ flattenSeparator ++ Text.snakeCase a.xmlName
  pattern : f.pattern = .flattenedAttribute a.xmlName
  sourceType : f.sourceType = a.ty.name
  valueType : f.valueType = .ofScalar a.ty
  validValues : f.validValues = a.validValues
  isAttr : f.isAttr = true
  isNested : f.isNested = false
  isPointer : f.isPointer = marker.isPointer
  link : f.link = marker.link
  optionality : f.optionality = .optional
  preserveUserIntent : f.preserveUserIntent = true
  omitEmpty : f.omitEmpty = true

theorem showsAttribute_attributeField (marker : Field) (a : AttributeInfo) :
    ShowsAttribute marker a (attributeField marker a) := by
  constructor <;> rfl

theorem ShowsAttribute.not_marker {marker : Field} {a : AttributeInfo}
    (h : ShowsAttribute marker a f) : f.isFlattenMarker = false := by
  rw [Field.isFlattenMarker, h.pattern]
  rfl

theorem not_marker_of_forall₂ {infos : List AttributeInfo}
    (h : List.Forall₂ (ShowsAttribute f) infos fields) :
    ∀ e ∈ fields, e.isFlattenMarker = false := by
  induction h with
  | nil => simp
  | cons hshows _ ih => exact List.forall_mem_cons.2 ⟨hshows.not_marker, ih⟩

/-- What stands in the place of a field. -/
inductive Replaces (g : Graph) (f : Field) : List Field → Prop
  | itself (h : ∀ p, ¬Expandable g f p) : Replaces g f [f]
  | block {p : ValueWithUnit} {attributes : List Field} (h : Expandable g f p)
      (shows : List.Forall₂ (ShowsAttribute f) p.attributes attributes) :
      Replaces g f
        ({ f with
            valueType := .ofScalar p.valueType
            isNested := false
            pattern := .flattenedValue } :: attributes)

theorem replaces_expandField (g : Graph) (f : Field) : Replaces g f (expandField g f) := by
  rw [expandField]
  cases hexpansion : expansion? g f with
  | none => exact .itself (expansion?_eq_none_iff.1 hexpansion)
  | some p =>
      refine .block (expansion?_eq_some_iff.1 hexpansion) ?_
      rw [List.forall₂_map_right_iff, List.forall₂_same]
      intro a _
      exact showsAttribute_attributeField f a

theorem expandField_of_not_expandable (h : ∀ p, ¬Expandable g f p) : expandField g f = [f] := by
  rw [expandField, expansion?_eq_none_iff.2 h]

/-- A block has no markers, except for one that could not be expanded. -/
theorem Replaces.not_expandable {block : List Field} (h : Replaces g f block) (hf' : f' ∈ block)
    (p : ValueWithUnit) : ¬Expandable g f' p := by
  cases h with
  | itself hf =>
      rw [List.mem_singleton.1 hf']
      exact hf p
  | block _ hshows =>
      apply not_expandable_of_not_marker
      rcases List.mem_cons.1 hf' with rfl | hattribute
      · rfl
      · exact not_marker_of_forall₂ hshows _ hattribute

/-! ## Lists of fields -/

theorem not_expandable_of_mem_expand (h : f ∈ expand g fields) (p : ValueWithUnit) :
    ¬Expandable g f p := by
  obtain ⟨e, -, hf⟩ := List.mem_flatMap.1 h
  exact (replaces_expandField g e).not_expandable hf p

theorem expand_of_not_expandable (h : ∀ f ∈ fields, ∀ p, ¬Expandable g f p) :
    expand g fields = fields := by
  rw [expand, List.flatMap_congr fun f hf => expandField_of_not_expandable (h f hf)]
  exact List.flatMap_singleton' fields

/-- Expansion puts one block after the other, in the order of the fields whose places they take.
It can be done piece by piece, it leaves nothing that could be expanded, and so doing it again
changes nothing. -/
theorem expand_replaces (g : Graph) (fields : List Field) :
    (∃ blocks, expand g fields = blocks.flatten ∧ List.Forall₂ (Replaces g) fields blocks) ∧
    (∀ more, expand g (fields ++ more) = expand g fields ++ expand g more) ∧
    (∀ f ∈ expand g fields, ∀ p, ¬Expandable g f p) ∧
    expand g (expand g fields) = expand g fields := by
  have hnone : ∀ f ∈ expand g fields, ∀ p, ¬Expandable g f p := by
    intro f hf p
    exact not_expandable_of_mem_expand hf p
  refine ⟨⟨fields.map (expandField g), List.flatMap_def, ?_⟩, ?_, hnone, ?_⟩
  · rw [List.forall₂_map_right_iff, List.forall₂_same]
    intro f _
    exact replaces_expandField g f
  · intro more
    exact List.flatMap_append
  · exact expand_of_not_expandable hnone

/-- The processors of a machine and how they are placed. -/
example :
    let placement : AttributeInfo := { name := "Placement", xmlName := "placement", ty := .string }
    let pattern : ValueWithUnit :=
      { valueField := "Value", valueType := .uint, attributes := [placement] }
    let g : Graph :=
      { structs := [{ name := "VCPU", package := "domain", pattern := .valueWithUnit pattern }] }
    let marker : Field :=
      { name := "VCPU", xmlName := "vcpu", outputName := "vcpu", link := .struct 0
        pattern := .flattenValueWithUnit }
    let title : Field := { name := "Title", xmlName := "title", outputName := "title" }
    (expand g [marker, title]).map (fun f => (f.name, f.outputName)) =
      [("VCPU", "vcpu"), ("VCPUPlacement", "vcpu_placement"), ("Title", "title")] := by
  decide +kernel

end RecordSchema.Reflection
