import RecordSchema.Proofs.Reflection.Block
import RecordSchema.Proofs.Reflection.Pattern

/-!
# What flattening keeps

A value with attributes is taken apart by its pattern, and the pattern is read off the fields that
its declaration gives by itself.  What embedded records give to it is in its struct, but not in the
blocks that stand for it in other structs.
-/

namespace RecordSchema.Reflection

open Schema (Field Graph Struct ValueWithUnit)

/-! ## Merged fields -/

/-- The third list is a merge of the first two that keeps the order of each. -/
inductive Interleave {α : Type} : List α → List α → List α → Prop
  | nil : Interleave [] [] []
  | left {x : α} {l l' merged : List α} (tail : Interleave l l' merged) :
      Interleave (x :: l) l' (x :: merged)
  | right {x : α} {l l' merged : List α} (tail : Interleave l l' merged) :
      Interleave l (x :: l') (x :: merged)

namespace Interleave

variable {α : Type} {l l' merged : List α}

theorem append_left (front : List α) (h : Interleave l l' merged) :
    Interleave (front ++ l) l' (front ++ merged) := by
  induction front with
  | nil => exact h
  | cons x front ih => exact .left ih

theorem append_right (front : List α) (h : Interleave l l' merged) :
    Interleave l (front ++ l') (front ++ merged) := by
  induction front with
  | nil => exact h
  | cons x front ih => exact .right ih

theorem length_eq (h : Interleave l l' merged) : merged.length = l.length + l'.length := by
  induction h with
  | nil => rfl
  | left _ ih =>
      rw [List.length_cons, List.length_cons, ih]
      omega
  | right _ ih =>
      rw [List.length_cons, List.length_cons, ih]
      omega

theorem eq_of_nil (h : Interleave l [] merged) : merged = l := by
  generalize hnil : ([] : List α) = none at h
  induction h with
  | nil => rfl
  | left _ ih => rw [ih hnil]
  | right => cases hnil

end Interleave

variable {g : Graph} {guard : CycleGuard} {owner : String}

/-- A declaration's own fields and those of embedded records come in the order of the
declaration. -/
theorem interleave_bodyFields (fields : List FieldDecl) :
    Interleave (ownFields g guard owner fields) (splicedFields g guard owner fields)
      (bodyFields g guard owner fields) := by
  induction fields with
  | nil => exact .nil
  | cons f rest ih =>
      rw [ownFields, splicedFields] at ih ⊢
      rw [bodyFields_cons, List.filter_cons, List.filter_cons]
      cases hembedded : f.embedded with
      | false =>
          simp only [Bool.not_false, if_true, Bool.false_eq_true, if_false]
          rw [bodyFields_cons]
          exact ih.append_left _
      | true =>
          simp only [Bool.not_true, Bool.false_eq_true, if_false, if_true]
          rw [bodyFields_cons f (rest.filter _)]
          exact ih.append_right _

/-! ## Structs -/

section Own

variable {fields : List FieldDecl} {p : ValueWithUnit}
  (h : DeclaresValueWithUnit p (ownSerialized fields))

include h

theorem length_ownFields : (ownFields g guard owner fields).length = p.attributes.length + 1 := by
  rw [← h.forall₂_showsScalar.length_eq, h.length_eq]

/-- The fields of a value with attributes are its own if and only if embedded records give none. -/
theorem forall₂_showsScalar_iff {shown : List Field}
    (hshown : Interleave (ownFields g guard owner fields) (splicedFields g guard owner fields)
      shown) :
    List.Forall₂ ShowsScalar (ownSerialized fields) shown ↔
      splicedFields g guard owner fields = [] := by
  have hown : List.Forall₂ ShowsScalar (ownSerialized fields) (ownFields g guard owner fields) :=
    h.forall₂_showsScalar
  constructor
  · -- there is no room beside the own fields
    intro hall
    have hlength := hshown.length_eq
    rw [← hall.length_eq, hown.length_eq] at hlength
    exact List.length_eq_zero_iff.1 (by omega)
  · intro hnil
    rw [hnil] at hshown
    rwa [hshown.eq_of_nil]

end Own

namespace Reflector

/-- After requests by name, the struct of a value with attributes has one field for each declaration
of its pattern, in their order, and between them the fields that embedded records give.  In the
structs that refer to it a block stands for it, of one field for the value and one for each
attribute.  So there are as many fields in the block as in the struct, and none but those of the
pattern in the struct, if and only if embedded records give none. -/
theorem after_fields_of_valueWithUnit (c : Catalog) (names : List String) {t : Struct}
    {p : ValueWithUnit} (ht : t ∈ (after c (names.map .reflect)).graph.structs)
    (hp : t.pattern = .valueWithUnit p) :
    let g := (after c (names.map .reflect)).graph
    ∃ r guard, c.find? t.name = some r ∧
      (∀ name ∈ g.names, name ∈ guard.names ↔ LeadsTo c g name t.name) ∧
      DeclaresValueWithUnit p (ownSerialized r.fields) ∧
      let own := ownFields g guard t.name r.fields
      let spliced := splicedFields g guard t.name r.fields
      Interleave own spliced t.fields ∧
      List.Forall₂ ShowsScalar (ownSerialized r.fields) own ∧
      (List.Forall₂ ShowsScalar (ownSerialized r.fields) t.fields ↔ spliced = []) ∧
      ∀ s ∈ g.structs, ∀ front v back, s.fields = front ++ v :: back →
        v.pattern = .flattenedValue → g.target? v = some t →
        leadingAttributes back = p.attributes.map (attributeField v) ∧
        ((v :: leadingAttributes back).length = t.fields.length ↔ spliced = []) := by
  intro g
  obtain ⟨frames, h⟩ := after_reflect_grown c names
  obtain ⟨id, f, hf, hname, hid, hfind⟩ := h.exists_frame_of_mem ht
  -- the pattern is that of the declaration, so a value with attributes is declared
  have hdecl : c.find? f.name = some f.decl := h.known_decl (List.mem_of_getElem? hf)
  have hdeclares : DeclaresValueWithUnit p (ownSerialized f.decl.fields) :=
    structPattern_eq_valueWithUnit_iff.1 ((h.pattern_eq hf hid).symm.trans hp)
  rw [← hname] at hfind
  obtain ⟨-, guard, hleads, hfields⟩ := h.fields_eq (after_guard c _) hdecl hfind
  replace hname : f.decl.name = t.name := hname
  rw [hname] at hleads hfields
  have hmerged : Interleave (ownFields g guard t.name f.decl.fields)
      (splicedFields g guard t.name f.decl.fields) t.fields := by
    rw [hfields]
    exact interleave_bodyFields f.decl.fields
  refine ⟨f.decl, guard, hname ▸ hdecl, hleads, hdeclares, hmerged,
    hdeclares.forall₂_showsScalar, forall₂_showsScalar_iff hdeclares hmerged, ?_⟩
  intro s hs front v back hsplit hvalue htarget
  have hattributes := (h.blocks s hs).leadingAttributes_eq hsplit hvalue htarget hp
  refine ⟨hattributes, ?_⟩
  rw [List.length_cons, hattributes, List.length_map, hmerged.length_eq,
    length_ownFields hdeclares, Nat.left_eq_add, List.length_eq_zero_iff]

/-- An amount of memory embeds nothing, so it has the fields of its pattern. -/
theorem after_fields_of_valueWithUnit_memory :
    let g := (after memoryCatalog (["Domain"].map .reflect)).graph
    ∃ t ∈ g.structs, ∃ p r, t.pattern = .valueWithUnit p ∧
      memoryCatalog.find? t.name = some r ∧ DeclaresValueWithUnit p (ownSerialized r.fields) ∧
      List.Forall₂ ShowsScalar (ownSerialized r.fields) t.fields := by
  intro g
  have hstruct : ∃ t ∈ g.structs, t.pattern =
      .valueWithUnit { valueField := "Value", valueType := .uint,
                       attributes := [{ name := "Unit", xmlName := "unit", ty := .string }] } := by
    decide +kernel
  have hplain : ∀ r ∈ memoryCatalog.records, ∀ f ∈ r.fields, ¬f.embedded = true := by decide
  obtain ⟨t, ht, hp⟩ := hstruct
  obtain ⟨r, guard, hr, -, hdeclares, -, -, hown, -⟩ :=
    after_fields_of_valueWithUnit memoryCatalog ["Domain"] ht hp
  have hmem := (Catalog.mem_of_find?_eq_some hr).1
  have hnone : splicedFields g guard t.name r.fields = [] := by
    rw [splicedFields, List.filter_eq_nil_iff.2 (hplain r hmem)]
    rfl
  exact ⟨t, ht, _, r, hp, hr, hdeclares, hown.2 hnone⟩

/-- An amount of memory that also tells where it is plugged in. -/
def pluggedMemoryRecord : RecordDecl where
  name := "Memory"
  fields :=
    [{ name := "Value", ty := .scalar .uint, tag := some { name := "", node := .charData } },
     { name := "Unit", ty := .scalar .string, tag := some { name := "unit", node := .attr } },
     .embed (.named "Plugs")]

def pluggedMemoryCatalog : Catalog :=
  .ofRecords "domain"
    [{ name := "Domain"
       fields :=
        [{ name := "Memory", ty := .named "Memory"
           tag := some { name := "memory", node := .element } }] },
     pluggedMemoryRecord,
     { name := "Plugs"
       fields :=
        [{ name := "Slots", ty := .scalar .string
           tag := some { name := "slots", node := .element } }] }]

/-- The catalog is valid and the memory has slots; the domain shows its value and its unit, and no
slots. -/
theorem flattened_fields_missing :
    pluggedMemoryCatalog.validate = .ok () ∧
    let g := (after pluggedMemoryCatalog [.reflect "Domain"]).graph
    ∃ s ∈ g.structs, ∃ t ∈ g.structs, ∃ p, t.pattern = .valueWithUnit p ∧
      ¬List.Forall₂ ShowsScalar (ownSerialized pluggedMemoryRecord.fields) t.fields ∧
      (∀ f ∈ s.fields, g.target? f = some t) ∧
      t.fields.map Field.outputName = ["value", "unit", "slots"] ∧
      s.fields.map Field.outputName = ["memory", "memory_unit"] := by
  refine ⟨by rfl, ?_⟩
  intro g
  have hstructs : ∃ s ∈ g.structs, ∃ t ∈ g.structs, t.pattern =
        .valueWithUnit { valueField := "Value", valueType := .uint,
                         attributes := [{ name := "Unit", xmlName := "unit", ty := .string }] } ∧
      (∀ f ∈ s.fields, g.target? f = some t) ∧
      t.fields.map Field.outputName = ["value", "unit", "slots"] ∧
      s.fields.map Field.outputName = ["memory", "memory_unit"] := by
    decide +kernel
  obtain ⟨s, hs, t, ht, hp, htarget, hfields, hblock⟩ := hstructs
  refine ⟨s, hs, t, ht, _, hp, fun hall => ?_, htarget, hfields, hblock⟩
  have hlength := congrArg List.length hfields
  rw [List.length_map, ← hall.length_eq] at hlength
  exact absurd hlength (by decide)

end Reflector

end RecordSchema.Reflection
