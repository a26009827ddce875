import RecordSchema.Proofs.Reflection.Embedding
import RecordSchema.Proofs.Reflection.Reference

/-!
# The fields of a body

What the fields of a record should be, told by its declaration and the finished graph: `HasBody`
goes through the declaration field by field, and each field gives nothing, one field or, if it
embeds a record, the fields of that record.  A reference leads back, with a trace of the way around,
just when the record it refers to leads to the owner; otherwise the pattern of its struct decides
how it shows.

If no embedded record reaches a record that embeds it, the fields of every struct of a graph are the
body of its declaration, expanded and overridden.
-/

namespace RecordSchema.Reflection

open Schema (Field Graph Struct StructId ValueWithUnit)

variable {c : Catalog} {g : Graph} {guard : CycleGuard} {owner : String}

/-! ## Bodies -/

/-- The trace shows a way of mentions from `target` to `owner` and back to `target`. -/
def IsTrace (c : Catalog) (owner target trace : String) : Prop :=
  ∃ way : List String, way.head? = some target ∧ way.getLast? = some owner ∧
    List.IsChain c.Mentions (way ++ [target]) ∧
    trace = traceSeparator.intercalate (way ++ [target])

/-- How a record shows in `owner`; `base` is what the declaration says without its type. -/
inductive ShowsRecord (c : Catalog) (g : Graph) (owner target : String) (base : Field) :
    Field → Prop
  | back {trace : String} (leads : LeadsTo c g target owner)
      (trace_eq : IsTrace c owner target trace) :
      ShowsRecord c g owner target base { base with link := .cycle trace }
  | presence {id : StructId} {t : Struct} (ahead : ¬LeadsTo c g target owner)
      (lookup : g.lookup target = some id) (struct : g.get? id = some t)
      (pattern : t.pattern = .presenceOnly) :
      ShowsRecord c g owner target base
        { base with link := .struct id, valueType := .bool, pattern := .presenceBoolean }
  | marker {id : StructId} {t : Struct} {p : ValueWithUnit} (ahead : ¬LeadsTo c g target owner)
      (lookup : g.lookup target = some id) (struct : g.get? id = some t)
      (pattern : t.pattern = .valueWithUnit p) :
      ShowsRecord c g owner target base
        { base with link := .struct id, valueType := .object, pattern := .flattenValueWithUnit }
  | object {id : StructId} {t : Struct} (ahead : ¬LeadsTo c g target owner)
      (lookup : g.lookup target = some id) (struct : g.get? id = some t)
      (pattern : t.pattern = .none) :
      ShowsRecord c g owner target base
        { base with link := .struct id, valueType := .object, isNested := true }

/-- How a list of records shows in `owner`. -/
inductive ShowsRecordList (c : Catalog) (g : Graph) (owner target : String) (base : Field) :
    Field → Prop
  | back {trace : String} (leads : LeadsTo c g target owner)
      (trace_eq : IsTrace c owner target trace) :
      ShowsRecordList c g owner target base { base with link := .cycle trace }
  | ahead {id : StructId} {t : Struct} (ahead : ¬LeadsTo c g target owner)
      (lookup : g.lookup target = some id) (struct : g.get? id = some t) :
      ShowsRecordList c g owner target base
        { base with link := .struct id, isNested := true, elementType := some .object }

mutual

/-- The fields that one declared field gives to `owner`. -/
inductive Gives (c : Catalog) (g : Graph) (owner : String) : FieldDecl → List Field → Prop
  | hidden {f : FieldDecl} (hidden : f.exported = false) : Gives c g owner f []
  | omitted {f : FieldDecl} (plain : f.embedded = false) (omitted : f.isSerialized = false) :
      Gives c g owner f []
  | inPlace {f : FieldDecl} {r : RecordDecl} (plain : f.embedded = false)
      (type : f.ty.stripOptional = .inline r) : Gives c g owner f []
  | inPlaceList {f : FieldDecl} {element : TypeExpr} {r : RecordDecl} (plain : f.embedded = false)
      (type : f.ty.stripOptional = .list element) (of : element.stripOptional = .inline r) :
      Gives c g owner f []
  | scalar {f : FieldDecl} {tag : Tag} {kind : ScalarKind} (serialized : f.isSerialized = true)
      (plain : f.embedded = false) (tag_eq : f.tag = some tag)
      (type : f.ty.stripOptional = .scalar kind) :
      Gives c g owner f [scalarField f (fieldBase f tag (.scalar kind)) kind]
  | scalarList {f : FieldDecl} {tag : Tag} {element : TypeExpr} {kind : ScalarKind}
      (serialized : f.isSerialized = true) (plain : f.embedded = false) (tag_eq : f.tag = some tag)
      (type : f.ty.stripOptional = .list element) (of : element.stripOptional = .scalar kind) :
      Gives c g owner f
        [{ fieldBase f tag (.scalarList kind) with elementType := some (.ofScalar kind) }]
  | nestedList {f : FieldDecl} {tag : Tag} {element inner : TypeExpr}
      (serialized : f.isSerialized = true) (plain : f.embedded = false) (tag_eq : f.tag = some tag)
      (type : f.ty.stripOptional = .list element) (of : element.stripOptional = .list inner) :
      Gives c g owner f [{ fieldBase f tag .nestedList with elementType := some .list }]
  | record {f : FieldDecl} {tag : Tag} {target : String} {field : Field}
      (serialized : f.isSerialized = true) (plain : f.embedded = false) (tag_eq : f.tag = some tag)
      (type : f.ty.stripOptional = .named target)
      (shows : ShowsRecord c g owner target (fieldBase f tag (.record target)) field) :
      Gives c g owner f [field]
  | recordList {f : FieldDecl} {tag : Tag} {element : TypeExpr} {target : String} {field : Field}
      (serialized : f.isSerialized = true) (plain : f.embedded = false) (tag_eq : f.tag = some tag)
      (type : f.ty.stripOptional = .list element) (of : element.stripOptional = .named target)
      (shows : ShowsRecordList c g owner target (fieldBase f tag (.recordList target)) field) :
      Gives c g owner f [field]
  | embeddedRecord {f : FieldDecl} {e : String} {t : Struct} (exported : f.exported = true)
      (embedded : f.embedded = true) (type : f.ty.stripOptional = .named e)
      (struct : g.find? e = some t) : Gives c g owner f t.fields
  | embeddedInPlace {f : FieldDecl} {r : RecordDecl} {fields : List Field}
      (exported : f.exported = true) (embedded : f.embedded = true)
      (type : f.ty.stripOptional = .inline r) (body : HasBody c g owner r.fields fields) :
      Gives c g owner f fields
  | embeddedScalar {f : FieldDecl} {kind : ScalarKind} (embedded : f.embedded = true)
      (type : f.ty.stripOptional = .scalar kind) : Gives c g owner f []
  | embeddedList {f : FieldDecl} {element : TypeExpr} (embedded : f.embedded = true)
      (type : f.ty.stripOptional = .list element) : Gives c g owner f []

/-- The fields that declared fields give to `owner`, in the order of the declaration. -/
inductive HasBody (c : Catalog) (g : Graph) (owner : String) :
    List FieldDecl → List Field → Prop
  | nil : HasBody c g owner [] []
  | cons {f : FieldDecl} {rest : List FieldDecl} {fields behind : List Field}
      (head : Gives c g owner f fields) (tail : HasBody c g owner rest behind) :
      HasBody c g owner (f :: rest) (fields ++ behind)

end

/-! ## References -/

/-- A mentioned record leads back to `owner`, or it is ahead and has a struct. -/
inductive Resolves (c : Catalog) (g : Graph) (guard : CycleGuard) (owner name : String) : Prop
  | back (mem : name ∈ guard.names) (leads : LeadsTo c g name owner)
      (trace : IsTrace c owner name (guard.trace name))
  | ahead {id : StructId} {t : Struct} (off : name ∉ guard.names) (ahead : ¬LeadsTo c g name owner)
      (lookup : g.lookup name = some id) (struct : g.get? id = some t)

namespace Resolves

variable {name : String} (h : Resolves c g guard owner name)

include h

theorem showsRecord (decl : FieldDecl) (tag : Tag) :
    ShowsRecord c g owner name (fieldBase decl tag (.record name))
      (fieldOf decl tag (.record name) (referent? g guard name)) := by
  cases h with
  | back mem leads trace =>
      rw [referent?_of_mem mem]
      exact .back leads trace
  | @ahead id t off ahead lookup struct =>
      rw [referent?_of_lookup off lookup, struct]
      simp only [fieldOf, recordField, Option.map_some]
      cases hpattern : t.pattern with
      | none => exact .object ahead lookup struct hpattern
      | valueWithUnit p => exact .marker ahead lookup struct hpattern
      | presenceOnly => exact .presence ahead lookup struct hpattern

theorem showsRecordList (decl : FieldDecl) (tag : Tag) :
    ShowsRecordList c g owner name (fieldBase decl tag (.recordList name))
      (fieldOf decl tag (.recordList name) (referent? g guard name)) := by
  cases h with
  | back mem leads trace =>
      rw [referent?_of_mem mem]
      exact .back leads trace
  | ahead off ahead lookup struct =>
      rw [referent?_of_lookup off lookup]
      exact .ahead ahead lookup struct

end Resolves

/-! ## Finishing a body -/

theorem applyOverrides_expand_append (g : Graph) (owner : String) (front back : List Field) :
    applyOverrides owner (expand g (front ++ back)) =
      applyOverrides owner (expand g front) ++ applyOverrides owner (expand g back) := by
  simp only [applyOverrides, expand, List.flatMap_append, List.map_append]

theorem applyOverrides_expand_singleton (g : Graph) (owner : String) (f : Field) :
    applyOverrides owner (expand g [f]) = finishField g owner f := by
  rw [finishField_eq, applyOverrides, expand, List.flatMap_singleton]

/-- Fields without markers are only overridden. -/
theorem applyOverrides_expand_of_not_marker {fields : List Field}
    (h : ∀ f ∈ fields, f.isFlattenMarker = false) :
    applyOverrides owner (expand g fields) = fields.map (overrideField owner) := by
  have hexpand : expand g fields = fields := by
    rw [expand, List.flatMap_congr fun f hf => expandField_of_not_marker (h f hf)]
    exact List.flatMap_singleton' fields
  rw [hexpand, applyOverrides]

/-- The fields that a declared field gives, finished as those of a struct are. -/
def GivesFinished (c : Catalog) (g : Graph) (guard : CycleGuard) (owner : String)
    (f : FieldDecl) : Prop :=
  ∃ fields, Gives c g owner f fields ∧
    (declSteps f).flatMap (finishedFields g guard owner) = applyOverrides owner (expand g fields)

/-- The body of declared fields, finished as the fields of a struct are. -/
def HasFinishedBody (c : Catalog) (g : Graph) (guard : CycleGuard) (owner : String)
    (fields : List FieldDecl) : Prop :=
  ∃ body, HasBody c g owner fields body ∧
    bodyFields g guard owner fields = applyOverrides owner (expand g body)

theorem hasFinishedBody_of_forall {fields : List FieldDecl}
    (h : ∀ f ∈ fields, GivesFinished c g guard owner f) :
    HasFinishedBody c g guard owner fields := by
  induction fields with
  | nil => exact ⟨[], .nil, rfl⟩
  | cons f rest ih =>
      obtain ⟨hf, hrest⟩ := List.forall_mem_cons.1 h
      obtain ⟨given, hgives, hsteps⟩ := hf
      obtain ⟨body, hbody, hfields⟩ := ih hrest
      refine ⟨given ++ body, .cons hgives hbody, ?_⟩
      rw [applyOverrides_expand_append, ← hsteps, ← hfields]
      rw [bodyFields, bodySteps, List.flatMap_append]
      rfl

theorem flatMap_declSteps_of_nil {f : FieldDecl} (h : declSteps f = []) :
    (declSteps f).flatMap (finishedFields g guard owner) = applyOverrides owner (expand g []) := by
  rw [h]
  rfl

section Plain

variable {f : FieldDecl} (hexported : f.exported = true) (hplain : f.embedded = false)

include hexported hplain

theorem declSteps_of_plain : declSteps f = fieldSteps f := by
  rw [declSteps_eq, if_pos hexported, if_neg (by simp [hplain])]

theorem flatMap_declSteps_of_anonymous (hshape : f.ty.shape = .anonymous) :
    (declSteps f).flatMap (finishedFields g guard owner) = applyOverrides owner (expand g []) :=
  flatMap_declSteps_of_nil
    ((declSteps_of_plain hexported hplain).trans (fieldSteps_of_anonymous hshape))

variable (hserialized : f.isSerialized = true) {tag : Tag} (htag : f.tag = some tag)
  (hnode : tag.node ≠ .ignored)

include htag hnode

/-- A field that shows in documents gives the field of its shape, finished. -/
theorem flatMap_declSteps_of_shape {shape : Shape} (hshape : f.ty.shape = shape)
    (hne : shape ≠ .anonymous) :
    (declSteps f).flatMap (finishedFields g guard owner) =
      applyOverrides owner
        (expand g [fieldOf f tag shape (shape.reference?.bind (referent? g guard))]) := by
  subst hshape
  rw [declSteps_of_plain hexported hplain, fieldSteps_of_tag htag hnode hne,
    List.flatMap_singleton, applyOverrides_expand_singleton]
  rfl

include hserialized

variable (hmet : ∀ name, Mentions [f] name → Resolves c g guard owner name)

include hmet

/-- A list gives one field, unless its elements are declared in place. -/
theorem givesFinished_of_list {element : TypeExpr} (hty : f.ty.stripOptional = .list element) :
    GivesFinished c g guard owner f := by
  cases hof : element.stripOptional with
  | optional inner => exact absurd hof (element.stripOptional_ne_optional inner)
  | inline r =>
      have hshape : f.ty.shape = .anonymous := by simp only [TypeExpr.shape, hty, hof]
      exact ⟨[], .inPlaceList hplain hty hof,
        flatMap_declSteps_of_anonymous hexported hplain hshape⟩
  | scalar kind =>
      have hshape : f.ty.shape = .scalarList kind := by simp only [TypeExpr.shape, hty, hof]
      exact ⟨_, .scalarList hserialized hplain htag hty hof,
        flatMap_declSteps_of_shape hexported hplain htag hnode hshape (by simp)⟩
  | list inner =>
      have hshape : f.ty.shape = .nestedList := by simp only [TypeExpr.shape, hty, hof]
      exact ⟨_, .nestedList hserialized hplain htag hty hof,
        flatMap_declSteps_of_shape hexported hplain htag hnode hshape (by simp)⟩
  | named target =>
      have hshape : f.ty.shape = .recordList target := by simp only [TypeExpr.shape, hty, hof]
      have hresolves := hmet target (.list (List.mem_singleton_self f) hserialized hplain hty
        (TypeExpr.recordName?_eq_some_iff.2 hof))
      exact ⟨_, .recordList hserialized hplain htag hty hof (hresolves.showsRecordList f tag),
        flatMap_declSteps_of_shape hexported hplain htag hnode hshape (by simp)⟩

/-- A field that shows in documents gives one field, unless its type is declared in place. -/
theorem givesFinished_of_serialized : GivesFinished c g guard owner f := by
  cases hty : f.ty.stripOptional with
  | optional inner => exact absurd hty (f.ty.stripOptional_ne_optional inner)
  | list element =>
      exact givesFinished_of_list hexported hplain hserialized htag hnode hmet hty
  | inline r =>
      have hshape : f.ty.shape = .anonymous := by simp only [TypeExpr.shape, hty]
      exact ⟨[], .inPlace hplain hty, flatMap_declSteps_of_anonymous hexported hplain hshape⟩
  | scalar kind =>
      have hshape : f.ty.shape = .scalar kind := by simp only [TypeExpr.shape, hty]
      exact ⟨_, .scalar hserialized hplain htag hty,
        flatMap_declSteps_of_shape hexported hplain htag hnode hshape (by simp)⟩
  | named target =>
      have hshape : f.ty.shape = .record target := by simp only [TypeExpr.shape, hty]
      have hresolves := hmet target (.record (List.mem_singleton_self f) hserialized hplain
        (TypeExpr.recordName?_eq_some_iff.2 hty))
      exact ⟨_, .record hserialized hplain htag hty (hresolves.showsRecord f tag),
        flatMap_declSteps_of_shape hexported hplain htag hnode hshape (by simp)⟩

end Plain

/-- A field that is not embedded gives what its type and its tag let it give. -/
theorem givesFinished_of_plain {f : FieldDecl} (hexported : f.exported = true)
    (hplain : f.embedded = false)
    (hmet : ∀ name, Mentions [f] name → Resolves c g guard owner name) :
    GivesFinished c g guard owner f := by
  cases hserialized : f.isSerialized with
  | false =>
      refine ⟨[], .omitted hplain hserialized, flatMap_declSteps_of_nil ?_⟩
      rw [declSteps_of_plain hexported hplain, fieldSteps_of_not_serialized hserialized hexported]
  | true =>
      obtain ⟨-, tag, htag, hnode⟩ := exists_tag_of_isSerialized hserialized
      exact givesFinished_of_serialized hexported hplain hserialized htag hnode hmet

/-- An embedded record gives its fields, if it does not lead back. -/
theorem givesFinished_of_embedded {f : FieldDecl} (hexported : f.exported = true)
    (hembedded : f.embedded = true)
    (hmarkers : ∀ t ∈ g.structs, ∀ e ∈ t.fields, e.isFlattenMarker = false)
    (hmet : ∀ name, Mentions [f] name → Resolves c g guard owner name)
    (hoff : ∀ name, Embeds [f] name → name ∉ guard.names)
    (hinline : ∀ r, f.ty.stripOptional = .inline r → HasFinishedBody c g guard owner r.fields) :
    GivesFinished c g guard owner f := by
  have hmem := List.mem_singleton_self f
  have hsteps : declSteps f = embedSteps f.ty.display f.ty := by
    rw [declSteps_eq, if_pos hexported, if_pos hembedded]
  cases hty : f.ty.stripOptional with
  | optional inner => exact absurd hty (f.ty.stripOptional_ne_optional inner)
  | scalar kind =>
      refine ⟨[], .embeddedScalar hembedded hty, flatMap_declSteps_of_nil ?_⟩
      rw [hsteps, embedSteps_stripOptional, hty]
      rfl
  | list element =>
      refine ⟨[], .embeddedList hembedded hty, flatMap_declSteps_of_nil ?_⟩
      rw [hsteps, embedSteps_stripOptional, hty]
      rfl
  | named e =>
      have he := TypeExpr.recordName?_eq_some_iff.2 hty
      have hguard := hoff e (.record hmem hexported hembedded he)
      cases hmet e (.embedded hmem hexported hembedded he) with
      | back mem => exact absurd mem hguard
      | @ahead id t _ _ lookup struct =>
          have ht : g.find? e = some t := (Graph.find?_eq_get? lookup).trans struct
          refine ⟨t.fields, .embeddedRecord hexported hembedded hty ht, ?_⟩
          rw [hsteps, embedSteps_of_recordName? he, List.flatMap_singleton, finishedFields,
            applyOverrides_expand_of_not_marker (hmarkers t (List.mem_of_getElem? struct))]
          simp only [ht, Option.elim_some]
          exact if_neg fun hc => hguard ((CycleGuard.contains_iff ..).1 hc)
  | inline r =>
      obtain ⟨body, hbody, hfields⟩ := hinline r hty
      refine ⟨body, .embeddedInPlace hexported hembedded hty hbody, ?_⟩
      rw [hsteps, embedSteps_of_inline hty, List.flatMap_map, ← hfields]
      rfl

/-- The body that a record's declaration asks for, resolved by a graph whose structs are finished,
gives its fields. -/
theorem hasFinishedBody
    (hmarkers : ∀ t ∈ g.structs, ∀ e ∈ t.fields, e.isFlattenMarker = false)
    (fields : List FieldDecl)
    (hmet : ∀ name, Mentions fields name → Resolves c g guard owner name)
    (hoff : ∀ name, Embeds fields name → name ∉ guard.names) :
    HasFinishedBody c g guard owner fields := by
  induction fields using FieldDecl.inline_induction with
  | step fields ih =>
      refine hasFinishedBody_of_forall fun f hf => ?_
      have hsub : [f] ⊆ fields := List.cons_subset.2 ⟨hf, List.nil_subset fields⟩
      have hmet' : ∀ name, Mentions [f] name → Resolves c g guard owner name :=
        fun name h => hmet name (h.subset hsub)
      have hoff' : ∀ name, Embeds [f] name → name ∉ guard.names :=
        fun name h => hoff name (h.subset hsub)
      cases hexported : f.exported with
      | false =>
          refine ⟨[], .hidden hexported, flatMap_declSteps_of_nil ?_⟩
          rw [declSteps_eq, if_neg (by simp [hexported])]
      | true =>
          cases hembedded : f.embedded with
          | false => exact givesFinished_of_plain hexported hembedded hmet'
          | true =>
              refine givesFinished_of_embedded hexported hembedded hmarkers hmet' hoff' ?_
              intro r hr
              exact ih f hf r hr (fun name h => hmet name (.inline hf hexported hembedded hr h))
                fun name h => hoff name (.inline hf hexported hembedded hr h)

/-! ## Structs -/

namespace Grown

variable {s : WalkState} {frames : List Frame} {f : Frame}

/-- The trace of a name under analysis shows a way around. -/
theorem isTrace (h : Grown c (Declared c) s frames) (hf : f ∈ frames) {name : String}
    (hname : name ∈ f.guard.names) (hmention : name ∈ f.references) :
    IsTrace c f.name name (f.guard.trace name) := by
  have hway := h.isWayAround hf hname hmention
  exact ⟨_, hway.head, hway.last, hway.chain, rfl⟩

/-- Between calls every reference of a struct is resolved by the names that lead to the struct. -/
theorem resolves (h : Grown c (Declared c) s frames) (hguard : s.guard = .empty) (hf : f ∈ frames)
    {name : String} (hname : Mentions f.decl.fields name) :
    Resolves c s.graph f.guard f.name name := by
  have hreference : name ∈ f.references := mem_references_iff_mentions.2 hname
  have hsettled := h.settled_of_guard_eq_empty hguard hf
  have hmet := hsettled.met name hreference
  have hlead := h.mem_guard_iff_leadsTo hguard hf hmet
  by_cases hon : name ∈ f.guard.names
  · exact .back hon (hlead.1 hon) (h.isTrace hf hon hreference)
  · obtain ⟨id, hid⟩ := h.indexed.mem_names_iff.1 hmet
    obtain ⟨t, ht⟩ := Graph.get?_eq_some_iff_lt.2 (h.indexed.lookup_lt hid)
    exact .ahead hon (fun hleads => hon (hlead.2 hleads)) hid ht

end Grown

namespace Reflector

/-- After requests by name, if no embedded record reaches a record that embeds it, the fields of
every struct are the body of its declaration, expanded and overridden. -/
theorem after_fields_eq_body (c : Catalog) (names : List String)
    (hembed : ∀ r ∈ c.records, ∀ e, Embeds r.fields e → ¬c.Reaches e r.name) {t : Struct}
    (ht : t ∈ (after c (names.map .reflect)).graph.structs) :
    let g := (after c (names.map .reflect)).graph
    ∃ r body, c.find? t.name = some r ∧ HasBody c g t.name r.fields body ∧
      t.fields = applyOverrides t.name (expand g body) := by
  intro g
  obtain ⟨frames, h⟩ := after_reflect_grown c names
  have hguard := after_guard c (names.map .reflect)
  obtain ⟨id, f, hf, hname, -, hfind⟩ := h.exists_frame_of_mem ht
  have hmem := List.mem_of_getElem? hf
  have hdecl : c.find? f.name = some f.decl := h.known_decl hmem
  have hsettled := h.settled_of_guard_eq_empty hguard hmem
  have hoff : ∀ e, Embeds f.decl.fields e → e ∉ f.guard.names := by
    intro e he hon
    have hlead := h.leadsTo_of_mem_guard hmem hon
    exact hembed f.decl (Catalog.mem_of_find?_eq_some hdecl).1 e he hlead.reaches
  have hmarkers : ∀ t ∈ g.structs, ∀ e ∈ t.fields, e.isFlattenMarker = false := by
    intro t ht e he
    obtain ⟨form, hform⟩ := h.formed t ht e he
    exact hform.not_marker
  obtain ⟨body, hbody, hfields⟩ := hasFinishedBody hmarkers f.decl.fields
    (fun name hname => h.resolves hguard hmem hname) hoff
  rw [← hname] at hfind
  rw [hname] at hdecl hbody
  refine ⟨f.decl, body, hdecl, hbody, ?_⟩
  rw [hsettled.fields t hfind, Frame.fieldsIn, hfields, hname]

/-- Volumes that are kept in volumes; they share their capacity with what else has one. -/
def volumeRecord : RecordDecl where
  name := "Volume"
  fields :=
    [{ name := "Key", ty := .scalar .string, tag := some { name := "key", node := .attr } },
     { name := "Parts", ty := .list (.named "Volume")
       tag := some { name := "part", node := .element } },
     .embed (.named "Sized")]

def sizedRecord : RecordDecl where
  name := "Sized"
  fields :=
    [{ name := "Capacity", ty := .optional (.named "Size")
       tag := some { name := "capacity", node := .element } }]

def sizeRecord : RecordDecl where
  name := "Size"
  fields :=
    [{ name := "Value", ty := .scalar .uint, tag := some { name := "", node := .charData } },
     { name := "Unit", ty := .scalar .string, tag := some { name := "unit", node := .attr } }]

def volumeCatalog : Catalog := .ofRecords "storage" [volumeRecord, sizedRecord, sizeRecord]

/-- What volumes embed does not reach them. -/
theorem volumeCatalog_embeds :
    ∀ r ∈ volumeCatalog.records, ∀ e, Embeds r.fields e → ¬volumeCatalog.Reaches e r.name := by
  have hall : ∀ r ∈ volumeCatalog.records, ∀ f ∈ r.fields, f.embedded = true →
      r.name = "Volume" ∧ f.ty.recordName? = some "Sized" := by decide
  have hsized : ¬volumeCatalog.Reaches "Sized" "Volume" := by
    intro hreaches
    have hmem := mem_of_reaches ["Sized", "Size"] (by decide +kernel) hreaches (by simp)
    revert hmem
    decide
  intro r hr e he
  cases he with
  | record mem _ embedded type =>
      obtain ⟨hname, htype⟩ := hall r hr _ mem embedded
      rw [hname, ← Option.some.inj (htype.symm.trans type)]
      exact hsized
  | inline mem _ embedded type =>
      obtain ⟨-, htype⟩ := hall r hr _ mem embedded
      cases (TypeExpr.recordName?_eq_some_iff.1 htype).symm.trans type

theorem after_fields_eq_body_volume :
    let g := (after volumeCatalog (["Volume"].map .reflect)).graph
    ∃ t ∈ g.structs,
      t.fields.map Field.outputName = ["key", "parts", "capacity", "capacity_unit"] ∧
      ∃ r body, volumeCatalog.find? t.name = some r ∧
        HasBody volumeCatalog g t.name r.fields body ∧
        t.fields = applyOverrides t.name (expand g body) := by
  intro g
  have hstruct : ∃ t ∈ g.structs,
      t.fields.map Field.outputName = ["key", "parts", "capacity", "capacity_unit"] := by
    decide +kernel
  obtain ⟨t, ht, hfields⟩ := hstruct
  exact ⟨t, ht, hfields, after_fields_eq_body volumeCatalog ["Volume"] volumeCatalog_embeds ht⟩

end Reflector

end RecordSchema.Reflection
