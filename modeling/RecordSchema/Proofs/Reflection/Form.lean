import RecordSchema.Proofs.Reflection.Growth
import RecordSchema.Proofs.Schema.Form

/-!
# The forms of reflected fields

Whatever a declaration asks for, the field it gets in the end has one of the forms.  A marker is the
one exception on the way, and it is taken apart before the struct is finished; the fields of an
embedded record have their forms already, and overriding keeps them.
-/

namespace RecordSchema.Reflection

open Schema (Field Form Graph HasForm Struct StructId ValueType ValueWithUnit)

variable {g : Graph} {f f' : Field} {form : Form} {owner : String}

/-! ## Finishing -/

/-- Overrides do not change the form of a field. -/
theorem hasForm_overrideField (h : HasForm g f form) (owner : String) :
    HasForm g (overrideField owner f) form := by
  cases h with
  | flattenedAttribute target pattern nested list plain mem value name attr optionality planHint
      intent empty =>
      rw [overrideField_of_flattenedAttribute pattern name]
      exact .flattenedAttribute target pattern nested list plain mem value name attr optionality
        planHint intent empty
  | cycle link pattern nested flag element =>
      rw [overrideField_eq]
      exact .cycle link pattern nested flag element
  | scalar link pattern nested list value flag =>
      rw [overrideField_eq]
      exact .scalar link pattern nested list value flag
  | list link pattern nested list value element_eq element_ne =>
      rw [overrideField_eq]
      exact .list link pattern nested list value element_eq element_ne
  | object target pattern nested list value plain =>
      rw [overrideField_eq]
      exact .object target pattern nested list value plain
  | objectList target pattern nested list value element =>
      rw [overrideField_eq]
      exact .objectList target pattern nested list value element
  | presence target pattern nested list value plain fields =>
      rw [overrideField_eq]
      exact .presence target pattern nested list value plain fields
  | flattenedValue target pattern nested list plain value =>
      rw [overrideField_eq]
      exact .flattenedValue target pattern nested list plain value

/-- A field that refers to a value with attributes and is to be taken apart. -/
structure IsMarker (g : Graph) (f : Field) (t : Struct) (p : ValueWithUnit) : Prop where
  target : g.target? f = some t
  plain : t.pattern = .valueWithUnit p
  pattern : f.pattern = .flattenValueWithUnit
  list : f.isList = false

theorem IsMarker.overrideField {t : Struct} {p : ValueWithUnit} (h : IsMarker g f t p)
    (owner : String) : IsMarker g (Reflection.overrideField owner f) t p := by
  rw [overrideField_eq]
  exact ⟨h.target, h.plain, h.pattern, h.list⟩

/-- A marker is taken apart into the value and the attributes. -/
theorem IsMarker.expandField_eq {t : Struct} {p : ValueWithUnit} (h : IsMarker g f t p) :
    expandField g f = valueField f p :: p.attributes.map (attributeField f) := by
  have hexpansion : expansion? g f = some p := by
    rw [expansion?, if_pos (by rw [Field.isFlattenMarker, h.pattern]; rfl), h.target,
      Option.bind_some, Struct.valueWithUnit?, h.plain]
  rw [expandField, hexpansion]

theorem IsMarker.exists_form {t : Struct} {p : ValueWithUnit} (h : IsMarker g f t p)
    (hf : f' ∈ finishField g owner f) : ∃ form, HasForm g f' form := by
  have hm := h.overrideField owner
  obtain ⟨e, he, rfl⟩ := List.mem_map.1 hf
  rw [hm.expandField_eq] at he
  generalize Reflection.overrideField owner f = m at hm he
  rcases List.mem_cons.1 he with rfl | ha
  · have hvalue : HasForm g (valueField m p) .flattenedValue :=
      .flattenedValue hm.target rfl rfl hm.list hm.plain rfl
    exact ⟨_, hasForm_overrideField hvalue owner⟩
  · obtain ⟨a, hmem, rfl⟩ := List.mem_map.1 ha
    have hattribute : HasForm g (attributeField m a) (.flattenedAttribute a.xmlName) :=
      .flattenedAttribute hm.target rfl rfl rfl hm.plain hmem rfl rfl rfl rfl rfl rfl rfl
    exact ⟨_, hasForm_overrideField hattribute owner⟩

theorem exists_form_of_mem_finishField (h : HasForm g f form)
    (hf : f' ∈ finishField g owner f) : ∃ form, HasForm g f' form := by
  rw [finishField_of_not_marker h.not_marker, List.mem_singleton] at hf
  rw [hf]
  exact ⟨form, hasForm_overrideField h owner⟩

/-! ## Declared fields -/

theorem ofScalar_mem (kind : ScalarKind) :
    ValueType.ofScalar kind ∈ [.string, .int64, .float64, .bool] := by
  cases kind <;> decide

theorem hasForm_scalarField (g : Graph) (decl : FieldDecl) (tag : Tag) (kind : ScalarKind) :
    HasForm g (scalarField decl (fieldBase decl tag (.scalar kind)) kind) .scalar := by
  rw [scalarField]
  split
  · exact .scalar rfl rfl rfl rfl (by simp) fun _ => rfl
  · exact .scalar rfl rfl rfl rfl (ofScalar_mem kind) fun h => by cases h

/-- A field that refers to a record has a form, or it is a marker. -/
theorem form_or_marker_recordField {t : Struct} {id : StructId} (decl : FieldDecl) (tag : Tag)
    (name : String) (ht : g.get? id = some t) (hempty : t.pattern = .presenceOnly → t.fields = []) :
    let f := recordField (fieldBase decl tag (.record name)) (.struct id (some t))
    (∃ form, HasForm g f form) ∨ ∃ p, IsMarker g f t p := by
  intro f
  cases hpattern : t.pattern with
  | none =>
      simp only [f, recordField, Option.map_some, hpattern]
      exact .inl ⟨_, .object ht rfl rfl rfl rfl hpattern⟩
  | presenceOnly =>
      simp only [f, recordField, Option.map_some, hpattern]
      exact .inl ⟨_, .presence ht rfl rfl rfl rfl hpattern (hempty hpattern)⟩
  | valueWithUnit p =>
      simp only [f, recordField, Option.map_some, hpattern]
      exact .inr ⟨p, ht, hpattern, rfl, rfl⟩

/-- A declared field has a form, or it is a marker. -/
theorem form_or_marker_fieldOf {guard : CycleGuard} (hg : g.Indexed)
    (hempty : ∀ t ∈ g.structs, t.pattern = .presenceOnly → t.fields = []) (decl : FieldDecl)
    (tag : Tag) (shape : Shape)
    (hmet : ∀ name, shape.reference? = some name → name ∉ guard.names → name ∈ g.names) :
    let f := fieldOf decl tag shape (shape.reference?.bind (referent? g guard))
    (∃ form, HasForm g f form) ∨ ∃ t p, IsMarker g f t p := by
  have hreferent {name : String} (hname : shape.reference? = some name)
      (hoff : name ∉ guard.names) : ∃ id t, g.get? id = some t ∧
        referent? g guard name = some (.struct id (some t)) := by
    obtain ⟨id, hid⟩ := hg.mem_names_iff.1 (hmet name hname hoff)
    obtain ⟨t, ht⟩ := Graph.get?_eq_some_iff_lt.2 (hg.lookup_lt hid)
    exact ⟨id, t, ht, ht ▸ referent?_of_lookup hoff hid⟩
  cases shape with
  | scalar kind => exact .inl ⟨_, hasForm_scalarField g decl tag kind⟩
  | scalarList kind =>
      refine .inl ⟨_, .list rfl rfl rfl rfl rfl rfl fun h => ?_⟩
      have hmem := ofScalar_mem kind
      rw [h] at hmem
      revert hmem
      decide
  | nestedList => exact .inl ⟨_, .list rfl rfl rfl rfl rfl rfl (by decide)⟩
  | anonymous => exact .inl ⟨_, .scalar rfl rfl rfl rfl (by simp [fieldOf, fieldBase, Shape.isList])
      fun h => by cases h⟩
  | record name =>
      by_cases hon : name ∈ guard.names
      · rw [Shape.reference?, Option.bind_some, referent?_of_mem hon]
        exact .inl ⟨_, .cycle rfl rfl rfl rfl rfl⟩
      · obtain ⟨id, t, ht, hreferent⟩ := hreferent rfl hon
        rw [Shape.reference?, Option.bind_some, hreferent]
        exact (form_or_marker_recordField decl tag name ht
          (hempty t (List.mem_of_getElem? ht))).imp_right fun h => ⟨t, h⟩
  | recordList name =>
      by_cases hon : name ∈ guard.names
      · rw [Shape.reference?, Option.bind_some, referent?_of_mem hon]
        exact .inl ⟨_, .cycle rfl rfl rfl rfl rfl⟩
      · obtain ⟨id, t, ht, hreferent⟩ := hreferent rfl hon
        rw [Shape.reference?, Option.bind_some, hreferent]
        exact .inl ⟨_, .objectList ht rfl rfl rfl rfl rfl⟩

/-! ## Bodies -/

/-- The fields a step gives in the end have forms, if the fields of the structs do. -/
theorem exists_form_of_mem_finishedFields {guard : CycleGuard} (hg : g.Indexed) (hformed : g.Formed)
    (hempty : ∀ t ∈ g.structs, t.pattern = .presenceOnly → t.fields = []) {step : BodyStep}
    (hmet : ∀ name, step.reference? = some name → name ∉ guard.names → name ∈ g.names)
    (hf : f ∈ finishedFields g guard owner step) : ∃ form, HasForm g f form := by
  rw [BodyStep.reference?] at hmet
  cases hitem : step.item with
  | field decl tag shape =>
      rw [finishedFields, hitem] at hf
      rw [hitem] at hmet
      rcases form_or_marker_fieldOf hg hempty decl tag shape hmet with ⟨form, hform⟩ | ⟨t, p, hm⟩
      · exact exists_form_of_mem_finishField hform hf
      · exact hm.exists_form hf
  | embed record =>
      obtain ⟨t, ht, e, he, rfl⟩ := exists_of_mem_finishedFields hitem hf
      obtain ⟨form, hform⟩ := hformed t (hg.mem_of_find? ht).1 e he
      exact ⟨form, hasForm_overrideField hform owner⟩

/-- A record without a field that can be seen has nothing to show. -/
theorem bodySteps_of_isPresenceOnly {fields : List FieldDecl} (h : isPresenceOnly fields = true) :
    bodySteps fields = [] := by
  induction fields with
  | nil => rfl
  | cons decl rest ih =>
      rw [isPresenceOnly, List.any_cons, Bool.not_or, Bool.and_eq_true] at h
      obtain ⟨name, ty, tag, exported, embedded, values⟩ := decl
      rw [bodySteps, declSteps, if_neg (by simpa using h.1), ih h.2]
      rfl

theorem bodySteps_of_presenceOnly {fields : List FieldDecl}
    (h : structPattern fields = .presenceOnly) : bodySteps fields = [] := by
  rw [structPattern] at h
  split at h
  · cases h
  · split at h
    · exact bodySteps_of_isPresenceOnly ‹_›
    · cases h

namespace Grown

variable {c : Catalog} {known : RecordDecl → Prop} {s : WalkState} {frames : List Frame}

/-- The struct of an element without content has no fields. -/
theorem fields_of_presenceOnly (h : Grown c known s frames) {t : Struct}
    (ht : t ∈ s.graph.structs) (hpattern : t.pattern = .presenceOnly) : t.fields = [] := by
  obtain ⟨id, f, hf, hname, hid, hfind⟩ := h.exists_frame_of_mem ht
  by_cases hopen : t.name ∈ s.guard.names
  · exact h.fields_of_mem_guard hopen hfind
  · rw [← hname] at hopen hfind
    have hnone := bodySteps_of_presenceOnly ((h.pattern_eq hf hid).symm.trans hpattern)
    rw [(h.settled (List.mem_of_getElem? hf) hopen).fields t hfind, Frame.fieldsIn, bodyFields,
      hnone]
    rfl

theorem keepsPatterns_enter {r : RecordDecl} :
    s.graph.KeepsPatterns (s.graph.insert (placeholder c r)).2 := fun _ t ht =>
  ⟨t, Graph.get?_of_prefix (Graph.prefix_insert ..) ht, rfl, fun _ hempty => hempty⟩

theorem keepsPatterns_leave (h : Grown c known s frames) {f : Frame} {id : StructId}
    (hf : frames[id]? = some f) :
    s.graph.KeepsPatterns (s.graph.modify id fun t => { t with fields := f.fieldsIn s.graph }) := by
  intro id' t ht
  rw [Graph.get?_modify, ht, Option.map_some]
  split
  · rename_i hid
    refine ⟨_, rfl, rfl, fun hpattern _ => ?_⟩
    subst hid
    have hnone := bodySteps_of_presenceOnly ((h.pattern_eq hf ht).symm.trans hpattern)
    rw [Frame.fieldsIn, bodyFields, hnone]
    rfl
  · exact ⟨t, rfl, rfl, fun _ hempty => hempty⟩

/-- What holds of no fields, of what a declaration gives and of larger graphs holds of the name and
the fields of every struct, in every state that a walk passes. -/
theorem forall_structs {motive : Graph → String → List Field → Prop}
    (hnil : ∀ g name, motive g name [])
    (hkeeps : ∀ g g' name fields, g.KeepsPatterns g' → motive g name fields →
      motive g' name fields)
    (hbody : ∀ s frames (f : Frame), Grown c known s frames → f ∈ frames →
      (∀ name ∈ f.references, name ∈ s.graph.names) →
      (∀ t ∈ s.graph.structs, motive s.graph t.name t.fields) →
      motive s.graph f.name (f.fieldsIn s.graph))
    (h : Grown c known s frames) : ∀ t ∈ s.graph.structs, motive s.graph t.name t.fields := by
  induction h with
  | start => exact fun t ht => by cases ht
  | enter _ _ hfresh _ ih =>
      intro t ht
      rw [Graph.insert_of_lookup_eq_none hfresh] at ht
      rcases List.mem_append.1 ht with ht | ht
      · exact hkeeps _ _ _ _ keepsPatterns_enter (ih t ht)
      · rw [List.mem_singleton.1 ht]
        exact hnil _ _
  | @leave _ _ f _ h hf _ hmet ih =>
      have hleave := h.keepsPatterns_leave hf
      intro t ht
      obtain ⟨id', hid'⟩ := List.mem_iff_getElem?.1 ht
      rw [← Graph.get?, Graph.get?_modify, Option.map_eq_some_iff] at hid'
      obtain ⟨t', ht', rfl⟩ := hid'
      split
      · rename_i hid
        subst hid
        have hname : t'.name = f.name := congrArg Struct.name (h.bare_eq hf ht')
        simp only [hname]
        exact hkeeps _ _ _ _ hleave (hbody _ _ _ h (List.mem_of_getElem? hf) hmet ih)
      · exact hkeeps _ _ _ _ hleave (ih t' (List.mem_of_getElem? ht'))

/-- In every state that a walk passes the fields have forms. -/
theorem formed (h : Grown c known s frames) : s.graph.Formed := by
  refine h.forall_structs (motive := fun g _ fields => ∀ f ∈ fields, ∃ form, HasForm g f form)
    (fun _ _ _ hf => by cases hf) (fun g g' _ fields hkeeps hforms f hf => ?_)
    fun s frames frame h _ hmet hformed f hf => ?_
  · obtain ⟨form, hform⟩ := hforms f hf
    exact ⟨form, hform.of_keepsPatterns hkeeps⟩
  · obtain ⟨step, hstep, hf⟩ := List.mem_flatMap.1 hf
    exact exists_form_of_mem_finishedFields h.indexed hformed
      (fun t ht hpattern => h.fields_of_presenceOnly ht hpattern)
      (fun name hname _ => hmet name (mem_references.2 ⟨step, hstep, hname⟩)) hf

end Grown

end RecordSchema.Reflection
