import Mathlib.Data.List.Nodup
import RecordSchema.Proofs.Reflection.Embedding

/-!
# Output names

The output names of a struct come from three places.  A field's own name is its declared name in
snake case, an attribute that is taken from it is called after both, and an embedded record brings
the names of its struct along.  Snake case folds different names to one, and none of the places
knows of the others, so names can meet wherever two of them do.
-/

namespace RecordSchema.Reflection

open Schema (Field Graph Struct ValueWithUnit)

variable {c : Catalog} {g : Graph} {guard : CycleGuard} {owner : String} {step : BodyStep}

/-! ## Names of a step -/

/-- The pattern by which a field of a shape is taken apart. -/
def takenApart? (g : Graph) (guard : CycleGuard) : Shape → Option ValueWithUnit
  | .record name =>
    if guard.contains name then none else (g.find? name).bind Struct.valueWithUnit?
  | _ => none

/-- The struct whose fields an embedded record gives. -/
def spliced? (g : Graph) (guard : CycleGuard) (record : String) : Option Struct :=
  if guard.contains record then none else g.find? record

/-- What an attribute of a field is called. -/
def attributeName (own : String) (xmlName : String) : String :=
  own ++ flattenSeparator ++ Text.snakeCase xmlName

/-- The output names that a step of a body gives. -/
def stepNames (g : Graph) (guard : CycleGuard) (step : BodyStep) : List String :=
  match step.item with
  | .field decl _ shape =>
    let own := Text.snakeCase decl.name
    own :: (takenApart? g guard shape).elim [] fun p =>
      p.attributes.map fun a => attributeName own a.xmlName
  | .embed record => (spliced? g guard record).elim [] fun t => t.fields.map (·.outputName)

theorem attributeName_inj {own a b : String} :
    attributeName own a = attributeName own b ↔ Text.snakeCase a = Text.snakeCase b := by
  rw [attributeName, attributeName, ← String.toList_inj]
  simp only [String.toList_append, List.append_cancel_left_eq, String.toList_inj]

theorem attributeName_ne_own (own xmlName : String) : attributeName own xmlName ≠ own := by
  intro h
  have hlength := congrArg (fun s => s.toList.length) h
  simp [attributeName, flattenSeparator] at hlength

theorem outputName_fieldOf (decl : FieldDecl) (tag : Tag) (shape : Shape)
    (referent : Option Referent) :
    (fieldOf decl tag shape referent).outputName = Text.snakeCase decl.name := by
  cases shape with
  | scalar kind =>
      rw [fieldOf, scalarField]
      split <;> rfl
  | record name =>
      rcases referent with _ | trace | ⟨id, target⟩
      · rfl
      · rfl
      · rw [fieldOf, recordField]
        split <;> rfl
  | recordList name => rcases referent with _ | trace | ⟨id, target⟩ <;> rfl
  | _ => rfl

/-- Only a field that refers to one record is ever taken apart. -/
theorem isFlattenMarker_fieldOf (decl : FieldDecl) (tag : Tag) {shape : Shape}
    (referent : Option Referent) (h : ∀ name, shape ≠ .record name) :
    (fieldOf decl tag shape referent).isFlattenMarker = false := by
  cases shape with
  | record name => exact absurd rfl (h name)
  | scalar kind =>
      rw [fieldOf, scalarField]
      split <;> rfl
  | recordList name => rcases referent with _ | trace | ⟨id, target⟩ <;> rfl
  | _ => rfl

theorem expansion?_recordField (g : Graph) (decl : FieldDecl) (tag : Tag) (shape : Shape)
    (id : Schema.StructId) :
    expansion? g (recordField (fieldBase decl tag shape) (.struct id (g.get? id))) =
      (g.get? id).bind Struct.valueWithUnit? := by
  rw [recordField]
  cases ht : g.get? id with
  | none => rfl
  | some t =>
      rw [Option.bind_some, Struct.valueWithUnit?]
      simp only [Option.map_some]
      cases hp : t.pattern with
      | none => rfl
      | presenceOnly => rfl
      | valueWithUnit p =>
          rw [expansion?, if_pos (by rfl), Graph.target?, Field.target?]
          simp only
          rw [Option.bind_some, ht, Option.bind_some, Struct.valueWithUnit?, hp]

/-- A field is taken apart by the pattern of the struct it refers to. -/
theorem expansion?_fieldOf (decl : FieldDecl) (tag : Tag) (shape : Shape) :
    expansion? g (fieldOf decl tag shape (shape.reference?.bind (referent? g guard))) =
      takenApart? g guard shape := by
  cases shape with
  | record name =>
      rw [Shape.reference?, Option.bind_some, takenApart?, referent?, Graph.find?]
      split
      · rfl
      · cases hid : g.lookup name with
        | none => rfl
        | some id => exact expansion?_recordField ..
  | _ => exact if_neg (by rw [isFlattenMarker_fieldOf _ _ _ (by simp)]; exact Bool.false_ne_true)

theorem map_outputName_finishField (g : Graph) (owner : String) (f : Field) :
    (finishField g owner f).map (·.outputName) =
      f.outputName :: (expansion? g f).elim [] fun p =>
        p.attributes.map fun a => attributeName f.outputName a.xmlName := by
  rw [finishField_eq, List.map_map]
  have hname : (·.outputName) ∘ overrideField owner = Field.outputName :=
    funext (overrideField_outputName owner)
  rw [hname, expandField]
  cases expansion? g f with
  | none => rfl
  | some p =>
      rw [List.map_cons, List.map_map]
      rfl

/-- The names of the fields that a step gives in the end. -/
theorem map_outputName_finishedFields (g : Graph) (guard : CycleGuard) (owner : String)
    (step : BodyStep) :
    (finishedFields g guard owner step).map (·.outputName) = stepNames g guard step := by
  rw [finishedFields, stepNames]
  cases step.item with
  | field decl tag shape =>
      simp only
      rw [map_outputName_finishField, outputName_fieldOf, expansion?_fieldOf]
  | embed record =>
      simp only
      rw [spliced?]
      split
      · rfl
      · cases g.find? record with
        | none => rfl
        | some t =>
            simp only [Option.elim_some]
            rw [List.map_map]
            exact List.map_congr_left fun f _ => overrideField_outputName owner f

theorem map_outputName_bodyFields (g : Graph) (guard : CycleGuard) (owner : String)
    (fields : List FieldDecl) :
    (bodyFields g guard owner fields).map (·.outputName) =
      (bodySteps fields).flatMap (stepNames g guard) := by
  rw [bodyFields, List.map_flatMap]
  exact List.flatMap_congr fun step _ => map_outputName_finishedFields g guard owner step

/-! ## Names that are kept apart -/

/-- The names that an item gives do not meet: the attributes of a value fold to different names, and
so do the fields of an embedded record. -/
def BodyItem.NamesApart (g : Graph) (guard : CycleGuard) : BodyItem → Prop
  | .field _ _ shape => ∀ p, takenApart? g guard shape = some p →
    (p.attributes.map fun a => Text.snakeCase a.xmlName).Nodup
  | .embed record => ∀ t, spliced? g guard record = some t → (t.fields.map (·.outputName)).Nodup

/-- The names that the fields of a declaration give do not meet, neither within one step nor between
two. -/
structure NamesApart (g : Graph) (guard : CycleGuard) (fields : List FieldDecl) : Prop where
  within : ∀ step ∈ bodySteps fields, step.item.NamesApart g guard
  between : (bodySteps fields).Pairwise fun step step' =>
    (stepNames g guard step).Disjoint (stepNames g guard step')

/-- A field and what is taken from it differ in names if the attributes do. -/
theorem nodup_fieldNames_iff {α : Type} (own : String) (l : List α) (xmlName : α → String) :
    (own :: l.map fun a => attributeName own (xmlName a)).Nodup ↔
      (l.map fun a => Text.snakeCase (xmlName a)).Nodup := by
  have hown : own ∉ l.map fun a => attributeName own (xmlName a) := by
    intro hmem
    obtain ⟨a, -, ha⟩ := List.mem_map.1 hmem
    exact attributeName_ne_own own (xmlName a) ha
  rw [List.nodup_cons, and_iff_right hown, List.nodup_iff_pairwise_ne, List.nodup_iff_pairwise_ne,
    List.pairwise_map, List.pairwise_map]
  simp only [ne_eq, attributeName_inj]

theorem nodup_stepNames_iff : (stepNames g guard step).Nodup ↔ step.item.NamesApart g guard := by
  rw [stepNames]
  cases step.item with
  | field decl tag shape =>
      simp only [BodyItem.NamesApart]
      cases takenApart? g guard shape with
      | none => simp
      | some p =>
          rw [Option.elim_some, nodup_fieldNames_iff]
          simp
  | embed record =>
      simp only [BodyItem.NamesApart]
      cases spliced? g guard record <;> simp

theorem nodup_map_outputName_bodyFields_iff (fields : List FieldDecl) :
    ((bodyFields g guard owner fields).map (·.outputName)).Nodup ↔ NamesApart g guard fields := by
  rw [map_outputName_bodyFields, List.nodup_flatMap]
  constructor
  · rintro ⟨hsteps, hbetween⟩
    exact ⟨fun step hstep => nodup_stepNames_iff.1 (hsteps step hstep), hbetween⟩
  · rintro ⟨hwithin, hbetween⟩
    exact ⟨fun step hstep => nodup_stepNames_iff.2 (hwithin step hstep), hbetween⟩

/-! ## Structs -/

/-- Between calls the output names of a struct are those that the steps of its declaration give. -/
theorem Grown.exists_outputNames {s : WalkState} {frames : List Frame}
    (h : Grown c (Declared c) s frames) (hguard : s.guard = .empty) {t : Struct}
    (ht : t ∈ s.graph.structs) :
    ∃ r, c.find? t.name = some r ∧
      ∃ guard : CycleGuard,
        (∀ name ∈ s.graph.names, name ∈ guard.names ↔ LeadsTo c s.graph name t.name) ∧
        t.fields.map (·.outputName) = (bodySteps r.fields).flatMap (stepNames s.graph guard) ∧
        ((t.fields.map (·.outputName)).Nodup ↔ NamesApart s.graph guard r.fields) := by
  obtain ⟨id, f, hf, hname, -, hfind⟩ := h.exists_frame_of_mem ht
  have hdecl : c.find? f.name = some f.decl := h.known_decl (List.mem_of_getElem? hf)
  rw [← hname] at hfind
  obtain ⟨-, guard, hleads, hfields⟩ := h.fields_eq hguard hdecl hfind
  replace hname : f.decl.name = t.name := hname
  rw [hname] at hleads
  refine ⟨f.decl, hname ▸ hdecl, guard, hleads, ?_, ?_⟩
  · rw [hfields, map_outputName_bodyFields]
  · rw [hfields, nodup_map_outputName_bodyFields_iff]

end RecordSchema.Reflection
