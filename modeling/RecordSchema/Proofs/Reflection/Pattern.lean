import Mathlib.Data.List.Forall2
import RecordSchema.Proofs.Reflection.Body

/-!
# Values with attributes

A record is a value with attributes just when the fields that show under it are one scalar of
character data and scalar attributes, and the pattern lists them in their order.  These fields give
the record's struct one field each.
-/

namespace RecordSchema.Reflection

open Schema (AttributeInfo Field Graph StructPattern ValueWithUnit)

variable {f : FieldDecl} {fields rest : List FieldDecl} {p : ValueWithUnit}
  {value : Option (String × ScalarKind)} {v : String × ScalarKind} {a : AttributeInfo}
  {attributes : List AttributeInfo}

/-! ## Detection -/

/-- A declaration of scalar character data. -/
structure DeclaresValue (v : String × ScalarKind) (f : FieldDecl) : Prop where
  name : f.name = v.1
  node : f.node? = some .charData
  type : f.ty.scalar? = some v.2

/-- A declaration of a scalar attribute. -/
structure DeclaresAttribute (a : AttributeInfo) (f : FieldDecl) : Prop where
  name : f.name = a.name
  node : f.node? = some .attr
  xmlName : f.tag.map Tag.name = some a.xmlName
  type : f.ty.scalar? = some a.ty
  validValues : f.validValues = a.validValues

/-- One declaration is of the value that the pattern names, the others are of its attributes, in
their order. -/
def DeclaresValueWithUnit (p : ValueWithUnit) (fields : List FieldDecl) : Prop :=
  ∃ front value back, fields = front ++ value :: back ∧
    DeclaresValue (p.valueField, p.valueType) value ∧
    List.Forall₂ DeclaresAttribute p.attributes (front ++ back)

theorem collectValue_of_value (h : DeclaresValue v f) :
    collectValue none attributes (f :: rest) = collectValue (some v) attributes rest := by
  obtain ⟨tag, htag, hnode⟩ := Option.map_eq_some_iff.1 h.node
  obtain ⟨name, node, omitEmpty⟩ := tag
  subst hnode
  rw [collectValue, htag, h.type]
  exact congrArg (collectValue · attributes rest) (congrArg some (Prod.ext h.name rfl))

theorem collectValue_of_attribute (h : DeclaresAttribute a f) :
    collectValue value attributes (f :: rest) = collectValue value (attributes ++ [a]) rest := by
  obtain ⟨tag, htag, hnode⟩ := Option.map_eq_some_iff.1 h.node
  obtain ⟨name, node, omitEmpty⟩ := tag
  subst hnode
  have hxml := h.xmlName
  rw [htag] at hxml
  obtain rfl : name = a.xmlName := Option.some.inj hxml
  rw [collectValue, htag, h.type]
  simp only [h.name, h.validValues]

/-- The first field is the value, which is still missing, or an attribute. -/
theorem collectValue_cons_eq_some_iff
    {out : Option (String × ScalarKind) × List AttributeInfo} :
    collectValue value attributes (f :: rest) = some out ↔
      (value = none ∧ ∃ v, DeclaresValue v f ∧ collectValue (some v) attributes rest = some out) ∨
      ∃ a, DeclaresAttribute a f ∧ collectValue value (attributes ++ [a]) rest = some out := by
  constructor
  · intro h
    rw [collectValue] at h
    split at h
    · rename_i name omitEmpty kind htag htype
      split at h
      · cases h
      · rename_i hmissing
        refine .inl ⟨by simpa using hmissing, (f.name, kind), ⟨rfl, ?_, htype⟩, h⟩
        rw [FieldDecl.node?, htag, Option.map_some]
    · rename_i name omitEmpty kind htag htype
      refine .inr ⟨_, ⟨rfl, ?_, ?_, htype, rfl⟩, h⟩
      · rw [FieldDecl.node?, htag, Option.map_some]
      · rw [htag, Option.map_some]
    · cases h
  · rintro (⟨rfl, v, hv, h⟩ | ⟨a, ha, h⟩)
    · rwa [collectValue_of_value hv]
    · rwa [collectValue_of_attribute ha]

/-- With the value found, all fields are attributes. -/
theorem collectValue_some_eq_some_iff
    {out : Option (String × ScalarKind) × List AttributeInfo} :
    collectValue (some v) attributes fields = some out ↔
      ∃ added, out = (some v, attributes ++ added) ∧
        List.Forall₂ DeclaresAttribute added fields := by
  induction fields generalizing attributes with
  | nil => simp [collectValue, eq_comm]
  | cons f rest ih =>
      simp only [collectValue_cons_eq_some_iff, ih, List.append_assoc, List.singleton_append,
        reduceCtorEq, false_and, false_or, List.forall₂_cons_right_iff]
      constructor
      · rintro ⟨a, ha, added, rfl, hadded⟩
        exact ⟨a :: added, rfl, a, added, ha, hadded, rfl⟩
      · rintro ⟨_, rfl, a, added, ha, hadded, rfl⟩
        exact ⟨a, ha, added, rfl, hadded⟩

/-- With the value missing, one field is the value and the others are attributes. -/
theorem collectValue_none_eq_some_iff {collected : List AttributeInfo} :
    collectValue none attributes fields = some (some v, collected) ↔
      ∃ front value back added, fields = front ++ value :: back ∧ DeclaresValue v value ∧
        collected = attributes ++ added ∧
        List.Forall₂ DeclaresAttribute added (front ++ back) := by
  induction fields generalizing attributes with
  | nil => simp [collectValue]
  | cons f rest ih =>
      rw [collectValue_cons_eq_some_iff]
      -- the value stands first, or behind an attribute
      constructor
      · rintro (⟨-, v', hv, h⟩ | ⟨a, ha, h⟩)
        · obtain ⟨added, hout, hadded⟩ := collectValue_some_eq_some_iff.1 h
          cases hout
          exact ⟨[], f, rest, added, rfl, hv, rfl, hadded⟩
        · obtain ⟨front, value, back, added, rfl, hv, rfl, hadded⟩ := ih.1 h
          exact ⟨f :: front, value, back, a :: added, rfl, hv, List.append_assoc ..,
            .cons ha hadded⟩
      · rintro ⟨front, value, back, added, hfields, hv, rfl, hadded⟩
        cases front with
        | nil =>
            cases hfields
            exact .inl ⟨rfl, v, hv, collectValue_some_eq_some_iff.2 ⟨added, rfl, hadded⟩⟩
        | cons f' front =>
            cases hfields
            cases hadded with
            | @cons a _ added _ ha hadded =>
                refine .inr ⟨a, ha, ih.2 ⟨front, value, back, added, rfl, hv, ?_, hadded⟩⟩
                rw [List.append_assoc, List.singleton_append]

/-- The detector is exact. -/
theorem valueWithUnit?_eq_some_iff :
    valueWithUnit? fields = some p ↔ DeclaresValueWithUnit p (ownSerialized fields) := by
  obtain ⟨valueField, valueType, attributes⟩ := p
  have hcollect : valueWithUnit? fields = some ⟨valueField, valueType, attributes⟩ ↔
      collectValue none [] (ownSerialized fields) =
        some (some (valueField, valueType), attributes) := by
    rw [valueWithUnit?]
    split
    · rename_i h
      rw [h]
      simp [and_assoc]
    · rename_i h
      simpa using h valueField valueType attributes
  rw [hcollect, collectValue_none_eq_some_iff, DeclaresValueWithUnit]
  simp only [List.nil_append]
  constructor
  · rintro ⟨front, value, back, _, hfields, hv, rfl, hadded⟩
    exact ⟨front, value, back, hfields, hv, hadded⟩
  · rintro ⟨front, value, back, hfields, hv, hadded⟩
    exact ⟨front, value, back, attributes, hfields, hv, rfl, hadded⟩

theorem structPattern_eq_valueWithUnit_iff :
    structPattern fields = .valueWithUnit p ↔ DeclaresValueWithUnit p (ownSerialized fields) := by
  rw [← valueWithUnit?_eq_some_iff, structPattern]
  split
  · rename_i h
    rw [h]
    simp
  · rename_i h
    rw [h]
    split <;> simp

theorem DeclaresValueWithUnit.isSome_scalar? (h : DeclaresValueWithUnit p fields)
    (hf : f ∈ fields) : f.ty.scalar?.isSome = true := by
  obtain ⟨front, value, back, rfl, hvalue, hattributes⟩ := h
  rw [List.mem_append, List.mem_cons, or_left_comm, ← List.mem_append] at hf
  rcases hf with rfl | hf
  · rw [hvalue.type, Option.isSome_some]
  · have hscalar : List.Forall₂ (fun d (_ : AttributeInfo) => d.ty.scalar?.isSome = true ∧ True)
        (front ++ back) p.attributes :=
      (hattributes.imp fun a d ha => ⟨by rw [ha.type, Option.isSome_some], trivial⟩).flip
    exact ((List.forall₂_and_left _ _).1 hscalar).1 f hf

/-! ## Fields of scalars -/

/-- The field shows the declared scalar. -/
structure ShowsScalar (f : FieldDecl) (shown : Field) : Prop where
  name : shown.name = f.name
  xmlName : some shown.xmlName = f.tag.map Tag.name
  outputName : shown.outputName = Text.snakeCase f.name
  isAttr : shown.isAttr = true ↔ f.node? = some .attr
  validValues : shown.validValues = f.validValues
  link : shown.link = .none
  pattern : shown.pattern = .plain

theorem showsScalar_overrideField {tag : Tag} (htag : f.tag = some tag) (owner : String)
    (kind : ScalarKind) :
    ShowsScalar f
      (overrideField owner (scalarField f (fieldBase f tag (.scalar kind)) kind)) := by
  have hattr : tag.isAttribute = true ↔ f.node? = some .attr := by
    rw [FieldDecl.node?, htag, Option.map_some, Option.some.injEq, Tag.isAttribute, beq_iff_eq]
  rw [overrideField_eq, scalarField]
  split <;> exact ⟨rfl, by rw [htag]; rfl, rfl, hattr, rfl, rfl, rfl⟩

variable {g : Graph} {guard : CycleGuard} {owner : String}

theorem bodyFields_of_not_serialized (hplain : f.embedded = false)
    (hserialized : f.isSerialized = false) : bodyFields g guard owner [f] = [] := by
  rw [bodyFields, bodySteps, bodySteps, declSteps_eq, List.append_nil]
  split
  · rw [if_neg (by rw [hplain]; exact Bool.false_ne_true),
      fieldSteps_of_not_serialized hserialized ‹_›]
    rfl
  · rfl

/-- A scalar gives one field, whatever the graph. -/
theorem exists_showsScalar (hserialized : f.isSerialized = true) (hplain : f.embedded = false)
    (hscalar : f.ty.scalar?.isSome = true) :
    ∃ shown, bodyFields g guard owner [f] = [shown] ∧ ShowsScalar f shown := by
  obtain ⟨hexported, tag, htag, hnode⟩ := exists_tag_of_isSerialized hserialized
  obtain ⟨kind, hkind⟩ := Option.isSome_iff_exists.1 hscalar
  have hshape : f.ty.shape = .scalar kind := by
    rw [TypeExpr.shape, TypeExpr.scalar?_eq_some_iff.1 hkind]
  refine ⟨_, ?_, showsScalar_overrideField htag owner kind⟩
  rw [bodyFields, bodySteps, bodySteps, List.append_nil,
    flatMap_declSteps_of_shape hexported hplain htag hnode hshape (by simp),
    applyOverrides_expand_singleton]
  exact finishField_of_not_marker (hasForm_scalarField g f tag kind).not_marker

/-- Scalars give one field each, in their order. -/
theorem forall₂_showsScalar
    (h : ∀ f ∈ fields, f.isSerialized = true ∧ f.embedded = false ∧ f.ty.scalar?.isSome = true) :
    List.Forall₂ ShowsScalar fields (bodyFields g guard owner fields) := by
  induction fields with
  | nil => exact .nil
  | cons f rest ih =>
      obtain ⟨⟨hserialized, hplain, hscalar⟩, hrest⟩ := List.forall_mem_cons.1 h
      obtain ⟨shown, hfields, hshown⟩ := exists_showsScalar hserialized hplain hscalar
      rw [bodyFields_cons, hfields]
      exact .cons hshown (ih hrest)

/-- The fields a declaration gives by itself, without those of embedded records. -/
def ownFields (g : Graph) (guard : CycleGuard) (owner : String) (fields : List FieldDecl) :
    List Field :=
  bodyFields g guard owner (fields.filter fun f => !f.embedded)

/-- The fields embedded records give to a declaration. -/
def splicedFields (g : Graph) (guard : CycleGuard) (owner : String) (fields : List FieldDecl) :
    List Field :=
  bodyFields g guard owner (fields.filter fun f => f.embedded)

theorem bodyFields_ownSerialized (fields : List FieldDecl) :
    bodyFields g guard owner (ownSerialized fields) = ownFields g guard owner fields := by
  induction fields with
  | nil => rfl
  | cons f rest ih =>
      rw [ownFields] at ih ⊢
      rw [ownSerialized] at ih ⊢
      rw [List.filter_cons, List.filter_cons]
      cases hembedded : f.embedded with
      | true => simpa using ih
      | false =>
          cases hserialized : f.isSerialized with
          | true =>
              simp only [Bool.not_false, Bool.and_self, if_true]
              rw [bodyFields_cons, ih, ← bodyFields_cons]
          | false =>
              -- a field that is left out of documents is no field of the struct either
              simp only [Bool.not_false, Bool.false_and, if_true, Bool.false_eq_true, if_false]
              rw [ih, bodyFields_cons f, bodyFields_of_not_serialized hembedded hserialized,
                List.nil_append]

/-- A value with attributes has one field of its own for each declaration that shows under it. -/
theorem DeclaresValueWithUnit.forall₂_showsScalar
    (h : DeclaresValueWithUnit p (ownSerialized fields)) :
    List.Forall₂ ShowsScalar (ownSerialized fields) (ownFields g guard owner fields) := by
  rw [← bodyFields_ownSerialized]
  refine Reflection.forall₂_showsScalar fun f hf => ?_
  have hshows := (List.mem_filter.1 hf).2
  rw [Bool.and_eq_true, Bool.not_eq_true'] at hshows
  exact ⟨hshows.1, hshows.2, h.isSome_scalar? hf⟩

theorem DeclaresValueWithUnit.length_eq (h : DeclaresValueWithUnit p fields) :
    fields.length = p.attributes.length + 1 := by
  obtain ⟨front, value, back, rfl, -, hattributes⟩ := h
  have hlength := hattributes.length_eq
  rw [List.length_append] at hlength
  rw [List.length_append, List.length_cons, hlength]
  omega

end RecordSchema.Reflection
