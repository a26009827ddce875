import RecordSchema.Proofs.Reflection.Embedding
import RecordSchema.Proofs.Reflection.Reference
import RecordSchema.Proofs.Schema.Naming

/-!
# Independence of the order

A record that reaches no cycle has no reference that leads back, whatever was under analysis with
it, and what it embeds has been finished before it.  So up to the places of the structs its own
struct is the same in all graphs over one catalog, in whatever order the records were asked for.
-/

namespace RecordSchema.Reflection

open Schema (AttributeInfo Field Graph NamedField Struct StructId ValueWithUnit)

variable {c : Catalog} {g g' : Graph} {f f' : Field} {owner name : String} {step : BodyStep}

/-! ## Fields told by name -/

/-- Overriding a field that is told by name. -/
def overrideNamed (owner : String) (n : NamedField) : NamedField :=
  { n with field := overrideField owner n.field }

theorem named_overrideField (g : Graph) (owner : String) (f : Field) :
    (overrideField owner f).named g = overrideNamed owner (f.named g) := by
  have hrules : matchingRules overrideRules owner { f with link := .none } =
      matchingRules overrideRules owner f := matchingRules_congr overrideRules rfl rfl
  rw [overrideNamed, Field.named, Field.named, overrideField_eq owner { f with link := .none },
    hrules, overrideField_eq]
  rfl

theorem map_named_overrideField (g : Graph) (owner : String) (fields : List Field) :
    (fields.map (overrideField owner)).map (Field.named g) =
      (fields.map (Field.named g)).map (overrideNamed owner) := by
  rw [List.map_map, List.map_map]
  exact List.map_congr_left fun f _ => named_overrideField g owner f

theorem named_valueField (g : Graph) (f : Field) (p : ValueWithUnit) :
    (valueField f p).named g = { f.named g with field := valueField (f.named g).field p } := rfl

theorem named_attributeField (g : Graph) (f : Field) (a : AttributeInfo) :
    (attributeField f a).named g =
      { f.named g with field := attributeField (f.named g).field a } := rfl

/-- Fields that are the same by name are finished to fields that are. -/
theorem map_named_finishField (hnamed : f.named g = f'.named g')
    (hexpansion : expansion? g f = expansion? g' f') :
    (finishField g owner f).map (Field.named g) =
      (finishField g' owner f').map (Field.named g') := by
  have hexpand : (expandField g f).map (Field.named g) =
      (expandField g' f').map (Field.named g') := by
    rw [expandField, expandField, hexpansion]
    cases expansion? g' f' with
    | none => rw [List.map_singleton, List.map_singleton, hnamed]
    | some p =>
        simp only [List.map_cons, List.map_map]
        rw [named_valueField, named_valueField, hnamed]
        refine congrArg _ (List.map_congr_left fun a _ => ?_)
        rw [Function.comp_apply, Function.comp_apply, named_attributeField, named_attributeField,
          hnamed]
  rw [finishField_eq, finishField_eq, map_named_overrideField, map_named_overrideField, hexpand]

/-- The fields are the same by name, and they are taken apart alike. -/
def SameField (g g' : Graph) (f f' : Field) : Prop :=
  f.named g = f'.named g' ∧ expansion? g f = expansion? g' f'

theorem sameField_of_link_none (h : f.link = .none) : SameField g g' f f := by
  constructor
  · rw [Field.named, Field.named, h]
    rfl
  · have htarget : f.target? = none := by rw [Field.target?, h]
    rw [expansion?, expansion?, Graph.target?, Graph.target?, htarget]
    rfl

theorem name_eq_of_bare {t t' : Struct} (h : bare t = bare t') : t.name = t'.name := by
  have hname : (bare t).name = (bare t').name := by rw [h]
  exact hname

theorem pattern_eq_of_bare {t t' : Struct} (h : bare t = bare t') : t.pattern = t'.pattern := by
  have hpattern : (bare t).pattern = (bare t').pattern := by rw [h]
  exact hpattern

/-- Fields that differ in the places of structs which are the same up to their fields. -/
theorem sameField_of_link_struct {id id' : StructId} {t t' : Struct} (hlink : f.link = .struct id)
    (hlink' : f'.link = .struct id') (hf : { f with link := .none } = { f' with link := .none })
    (ht : g.get? id = some t) (ht' : g'.get? id' = some t') (hbare : bare t = bare t') :
    SameField g g' f f' := by
  have hname := name_eq_of_bare hbare
  have hpattern := pattern_eq_of_bare hbare
  have hmarker : f.isFlattenMarker = f'.isFlattenMarker := by
    have hmarker : Field.isFlattenMarker { f with link := .none } =
        Field.isFlattenMarker { f' with link := .none } := by rw [hf]
    exact hmarker
  constructor
  · rw [Field.named, Field.named, hf, hlink, hlink', Schema.Link.named_struct ht,
      Schema.Link.named_struct ht', hname]
  · have htarget : g.target? f = some t := by rw [Graph.target?, Field.target?, hlink]; exact ht
    have htarget' : g'.target? f' = some t' := by
      rw [Graph.target?, Field.target?, hlink']
      exact ht'
    rw [expansion?, expansion?, htarget, htarget', hmarker]
    simp only [Option.bind_some, Struct.valueWithUnit?, hpattern]

/-! ## Steps -/

/-- Both graphs have a struct of the name, the same up to its fields. -/
def SameRecord (g g' : Graph) (name : String) : Prop :=
  ∃ t t', g.find? name = some t ∧ g'.find? name = some t' ∧ bare t = bare t'

theorem contains_empty (name : String) : CycleGuard.empty.contains name = false := rfl

/-- Without names under analysis a reference that has a struct leads to it. -/
theorem referent?_empty {t : Struct} (ht : g.find? name = some t) :
    ∃ id, g.get? id = some t ∧ referent? g .empty name = some (.struct id (some t)) := by
  obtain ⟨id, hid, ht⟩ := Option.bind_eq_some_iff.1 ht
  exact ⟨id, ht, ht ▸ referent?_of_lookup List.not_mem_nil hid⟩

/-- A declared field is the same in both graphs, up to the place of the struct it refers to. -/
theorem sameField_fieldOf (decl : FieldDecl) (tag : Tag) (shape : Shape)
    (h : ∀ name, shape.reference? = some name → SameRecord g g' name) :
    SameField g g' (fieldOf decl tag shape (shape.reference?.bind (referent? g .empty)))
      (fieldOf decl tag shape (shape.reference?.bind (referent? g' .empty))) := by
  have hlink := link_fieldOf decl tag shape (referent? g .empty)
  cases hname : shape.reference? with
  | none =>
      rw [hname] at hlink
      exact sameField_of_link_none hlink
  | some name =>
      obtain ⟨t, t', ht, ht', hbare⟩ := h name hname
      obtain ⟨id, hid, hreferent⟩ := referent?_empty ht
      obtain ⟨id', hid', hreferent'⟩ := referent?_empty ht'
      have hlink' := link_fieldOf decl tag shape (referent? g' .empty)
      rw [hname, Option.bind_some, hreferent] at hlink
      rw [hname, Option.bind_some, hreferent'] at hlink'
      rw [Option.bind_some, Option.bind_some, hreferent, hreferent']
      refine sameField_of_link_struct hlink hlink' ?_ hid hid' hbare
      have hpattern := pattern_eq_of_bare hbare
      cases shape with
      | record _ =>
          simp only [fieldOf, recordField, Option.map_some, hpattern]
          cases t'.pattern <;> rfl
      | recordList _ => rfl
      | scalar _ | scalarList _ | nestedList | anonymous => cases hname

/-- A step gives the same fields in both graphs, up to the places of structs. -/
theorem map_named_finishedFields
    (h : ∀ name, step.reference? = some name → SameRecord g g' name)
    (hembed : ∀ e t t', step.item = .embed e → g.find? e = some t → g'.find? e = some t' →
      t.fields.map (Field.named g) = t'.fields.map (Field.named g')) :
    (finishedFields g .empty owner step).map (Field.named g) =
      (finishedFields g' .empty owner step).map (Field.named g') := by
  rw [BodyStep.reference?] at h
  rw [finishedFields, finishedFields]
  cases hitem : step.item with
  | field decl tag shape =>
      rw [hitem] at h
      obtain ⟨hnamed, hexpansion⟩ := sameField_fieldOf decl tag shape h
      exact map_named_finishField hnamed hexpansion
  | embed e =>
      rw [hitem] at h
      obtain ⟨t, t', ht, ht', -⟩ := h e rfl
      simp only [ht, ht', Option.elim_some]
      rw [contains_empty, if_neg Bool.false_ne_true, if_neg Bool.false_ne_true,
        map_named_overrideField, map_named_overrideField, hembed e t t' hitem ht ht']

/-- Without names under analysis no field of a step leads back. -/
theorem not_isCycle_of_mem_finishedFields
    (hembed : ∀ e t, step.item = .embed e → g.find? e = some t →
      ∀ f ∈ t.fields, f.isCycle = false)
    (hf : f ∈ finishedFields g .empty owner step) : f.isCycle = false := by
  rw [finishedFields] at hf
  cases hitem : step.item with
  | field decl tag shape =>
      rw [hitem] at hf
      have hlink := (link_of_mem_finishField hf).trans (link_fieldOf decl tag shape _)
      rw [Field.isCycle, Field.cycleTrace?, hlink]
      cases shape.reference? with
      | none => rfl
      | some name =>
          rw [Option.bind_some, referent?, contains_empty, if_neg Bool.false_ne_true]
          cases g.lookup name <;> rfl
  | embed e =>
      rw [hitem] at hf
      simp only at hf
      cases ht : g.find? e with
      | none =>
          rw [ht] at hf
          cases hf
      | some t =>
          rw [ht] at hf
          obtain ⟨e', he', rfl⟩ := List.mem_map.1 hf
          rw [Field.isCycle, Field.cycleTrace?, overrideField_link]
          exact hembed e t hitem ht e' he'

/-- Names under analysis that the step does not refer to make no difference. -/
theorem finishedFields_of_notMem {guard : CycleGuard}
    (h : ∀ name, step.reference? = some name → name ∉ guard.names) :
    finishedFields g guard owner step = finishedFields g .empty owner step := by
  have hoff : ∀ name, step.reference? = some name → guard.contains name = false :=
    fun name hname => Bool.eq_false_iff.2 fun hc => h name hname ((CycleGuard.contains_iff ..).1 hc)
  rw [BodyStep.reference?] at hoff
  rw [finishedFields, finishedFields]
  cases hitem : step.item with
  | field decl tag shape =>
      rw [hitem] at hoff
      have hbind : shape.reference?.bind (referent? g guard) =
          shape.reference?.bind (referent? g .empty) := by
        refine Option.bind_congr fun name hname => ?_
        rw [referent?, referent?, hoff name hname]
        rfl
      simp only [hbind]
  | embed e =>
      rw [hitem] at hoff
      simp only [hoff e rfl]
      rfl

/-! ## Structs -/

namespace Grown

variable {s s' : WalkState} {frames frames' : List Frame} {n : String} {t t' : Struct}

/-- Up to its fields a struct is the placeholder of the catalog's declaration. -/
theorem exists_declared (h : Grown c (Declared c) s frames) (ht : s.graph.find? n = some t) :
    ∃ r, Declared c r ∧ r.name = n ∧ bare t = placeholder c r := by
  obtain ⟨id, hid, hget⟩ := Option.bind_eq_some_iff.1 ht
  obtain ⟨f, hf, hname⟩ := h.exists_frame hid
  exact ⟨f.decl, h.known_decl (List.mem_of_getElem? hf), hname, h.bare_eq hf hget⟩

/-- The structs of a name in two graphs are the same up to their fields. -/
theorem bare_eq_bare (h : Grown c (Declared c) s frames) (h' : Grown c (Declared c) s' frames')
    (ht : s.graph.find? n = some t) (ht' : s'.graph.find? n = some t') : bare t = bare t' := by
  obtain ⟨r, hr, rfl, hbare⟩ := h.exists_declared ht
  obtain ⟨r', hr', hname, hbare'⟩ := h'.exists_declared ht'
  rw [Declared, hname] at hr'
  obtain rfl := Option.some.inj (hr.symm.trans hr')
  exact hbare.trans hbare'.symm

/-- A record that reaches no cycle has fields as if it had been analysed alone. -/
theorem fields_eq_of_acyclic (h : Grown c (Declared c) s frames) (hguard : s.guard = .empty)
    {r : RecordDecl} (hr : Declared c r) (hacyclic : c.AcyclicFrom r.name)
    (ht : s.graph.find? r.name = some t) :
    t.fields = (bodySteps r.fields).flatMap (finishedFields s.graph .empty r.name) := by
  obtain ⟨hmet, guard, hleads, hfields⟩ := h.fields_eq hguard hr ht
  rw [hfields, bodyFields]
  refine List.flatMap_congr fun step hstep => finishedFields_of_notMem fun name hname hon => ?_
  have hreference : name ∈ references r.fields := mem_references.2 ⟨step, hstep, hname⟩
  obtain ⟨t', ht'⟩ := hmet name hreference
  -- a name that leads to the record and is mentioned by it would close a cycle
  have hback := ((hleads name (h.indexed.mem_names_of_find? ht')).1 hon).reaches
  have hmention := refersTo_iff_mentions.1 ⟨r, hr, hreference⟩
  exact hacyclic r.name .refl (Relation.TransGen.head' hmention hback)

theorem mentions_of_embed {r : RecordDecl} (hr : Declared c r) (hstep : step ∈ bodySteps r.fields)
    {e : String} (he : step.item = .embed e) : c.Mentions r.name e := by
  refine refersTo_iff_mentions.1 ⟨r, hr, mem_references.2 ⟨step, hstep, ?_⟩⟩
  rw [BodyStep.reference?, he]

/-- A record that reaches no cycle has no field that leads back. -/
theorem not_isCycle_of_acyclic (h : Grown c (Declared c) s frames) (hguard : s.guard = .empty)
    (hacyclic : c.AcyclicFrom n) (ht : s.graph.find? n = some t) (hf : f ∈ t.fields) :
    f.isCycle = false := by
  induction hacyclic using Catalog.AcyclicFrom.induction generalizing t f with
  | step n hacyclic ih =>
      obtain ⟨r, hr, rfl, -⟩ := h.exists_declared ht
      rw [h.fields_eq_of_acyclic hguard hr hacyclic ht] at hf
      obtain ⟨step, hstep, hf⟩ := List.mem_flatMap.1 hf
      refine not_isCycle_of_mem_finishedFields (fun e t' he ht' f' hf' => ?_) hf
      exact ih e (mentions_of_embed hr hstep he) ht' hf'

/-- A record that reaches no cycle has the same struct in two graphs, told by name. -/
theorem named_eq_of_acyclic (h : Grown c (Declared c) s frames)
    (h' : Grown c (Declared c) s' frames') (hguard : s.guard = .empty) (hguard' : s'.guard = .empty)
    (hacyclic : c.AcyclicFrom n) (ht : s.graph.find? n = some t)
    (ht' : s'.graph.find? n = some t') : t.named s.graph = t'.named s'.graph := by
  induction hacyclic using Catalog.AcyclicFrom.induction generalizing t t' with
  | step n hacyclic ih =>
      have hbare := h.bare_eq_bare h' ht ht'
      obtain ⟨r, hr, rfl, -⟩ := h.exists_declared ht
      have hfields : t.fields.map (Field.named s.graph) = t'.fields.map (Field.named s'.graph) := by
        rw [h.fields_eq_of_acyclic hguard hr hacyclic ht,
          h'.fields_eq_of_acyclic hguard' hr hacyclic ht', List.map_flatMap, List.map_flatMap]
        refine List.flatMap_congr fun step hstep => map_named_finishedFields ?_ ?_
        · intro name hname
          have hreference : name ∈ references r.fields := mem_references.2 ⟨step, hstep, hname⟩
          obtain ⟨u, hu⟩ := (h.fields_eq hguard hr ht).1 name hreference
          obtain ⟨u', hu'⟩ := (h'.fields_eq hguard' hr ht').1 name hreference
          exact ⟨u, u', hu, hu', h.bare_eq_bare h' hu hu'⟩
        · intro e u u' he hu hu'
          have hnamed := ih e (mentions_of_embed hr hstep he) hu hu'
          exact congrArg Schema.NamedStruct.fields hnamed
      exact congrArg₂ Schema.NamedStruct.mk hbare hfields

end Grown

namespace Reflector

/-- Whatever was asked for by name, in whatever order and with whatever failures, a record that
reaches no cycle has the same struct, places told by the names of the structs there, and none of its
fields leads back. -/
theorem after_named_eq (c : Catalog) (names names' : List String) {n : String}
    (hacyclic : c.AcyclicFrom n) {t t' : Struct}
    (ht : (after c (names.map .reflect)).graph.find? n = some t)
    (ht' : (after c (names'.map .reflect)).graph.find? n = some t') :
    t.named (after c (names.map .reflect)).graph =
        t'.named (after c (names'.map .reflect)).graph ∧
      (∀ f ∈ t.fields, f.isCycle = false) ∧ ∀ f ∈ t'.fields, f.isCycle = false := by
  obtain ⟨frames, h⟩ := after_reflect_grown c names
  obtain ⟨frames', h'⟩ := after_reflect_grown c names'
  have hguard := after_guard c (names.map .reflect)
  have hguard' := after_guard c (names'.map .reflect)
  refine ⟨?_, ?_, ?_⟩
  · exact h.named_eq_of_acyclic h' hguard hguard' hacyclic ht ht'
  · exact fun f hf => h.not_isCycle_of_acyclic hguard hacyclic ht hf
  · exact fun f hf => h'.not_isCycle_of_acyclic hguard' hacyclic ht' hf

/-- Disks back each other up; where a disk has its source does not depend on that. -/
def diskCatalog : Catalog :=
  .ofRecords "storage"
    [{ name := "Disk"
       fields :=
        [{ name := "Source", ty := .named "Source"
           tag := some { name := "source", node := .element } },
         { name := "Backing", ty := .optional (.named "Disk")
           tag := some { name := "backingStore", node := .element } }] },
     { name := "Source"
       fields :=
        [.embed (.named "Address"),
         { name := "Labels", ty := .list (.named "Label")
           tag := some { name := "seclabel", node := .element } }] },
     { name := "Address"
       fields :=
        [{ name := "Bus", ty := .scalar .uint, tag := some { name := "bus", node := .attr } }] },
     { name := "Label"
       fields :=
        [{ name := "Model", ty := .scalar .string
           tag := some { name := "model", node := .attr } }] }]

/-- The source is met below a disk, or asked for after its labels and a failure: only the place of
the labels differs. -/
theorem after_named_eq_source :
    let g := (after diskCatalog (["Disk"].map .reflect)).graph
    let g' := (after diskCatalog (["Label", "Pool", "Source"].map .reflect)).graph
    ∃ t t', g.find? "Source" = some t ∧ g'.find? "Source" = some t' ∧ t ≠ t' ∧
      t.named g = t'.named g' ∧ (∀ f ∈ t.fields, f.isCycle = false) ∧
        ∀ f ∈ t'.fields, f.isCycle = false := by
  intro g g'
  have hacyclic : diskCatalog.AcyclicFrom "Source" :=
    acyclicFrom_of_order ["Address", "Label", "Source"] (by decide +kernel) (by simp)
  obtain ⟨t, ht⟩ := Option.isSome_iff_exists.1 (by decide +kernel : (g.find? "Source").isSome)
  obtain ⟨t', ht'⟩ := Option.isSome_iff_exists.1 (by decide +kernel : (g'.find? "Source").isSome)
  have hne : t ≠ t' := by
    have hdiffer : g.find? "Source" ≠ g'.find? "Source" := by decide +kernel
    rw [ht, ht'] at hdiffer
    exact fun heq => hdiffer (congrArg some heq)
  exact ⟨t, t', ht, ht', hne,
    after_named_eq diskCatalog ["Disk"] ["Label", "Pool", "Source"] hacyclic ht ht'⟩

end Reflector

end RecordSchema.Reflection
