import RecordSchema.Proofs.Reflection.Override
import RecordSchema.Proofs.Schema.Index

/-!
# Resolved fields

The fields of a struct can be read off its declaration, a graph that has the structs it refers to
and the names that were under analysis with it.  A reference to one of these names leads back, any
other one to the struct of the name; so two graphs that agree on the other names give the same
fields.
-/

namespace RecordSchema.Reflection

open Schema (Field Graph Link Struct StructId)

variable {g g' : Graph} {guard : CycleGuard} {owner name : String}

/-- The names a declaration refers to, in order. -/
def references (fields : List FieldDecl) : List String :=
  (bodySteps fields).filterMap BodyStep.reference?

theorem mem_references {fields : List FieldDecl} :
    name ∈ references fields ↔ ∃ step ∈ bodySteps fields, step.reference? = some name :=
  List.mem_filterMap

theorem bodySteps_append (front back : List FieldDecl) :
    bodySteps (front ++ back) = bodySteps front ++ bodySteps back := by
  induction front with
  | nil => rfl
  | cons f rest ih => rw [List.cons_append, bodySteps, ih, bodySteps, List.append_assoc]

/-! ## References -/

/-- Where a reference leads while the names of `guard` are under analysis. -/
def referent? (g : Graph) (guard : CycleGuard) (name : String) : Option Referent :=
  if guard.contains name then some (.cycle (guard.trace name))
  else (g.lookup name).map fun id => .struct id (g.get? id)

theorem referent?_of_mem (h : name ∈ guard.names) :
    referent? g guard name = some (.cycle (guard.trace name)) := by
  rw [referent?, if_pos ((CycleGuard.contains_iff ..).2 h)]

theorem referent?_of_lookup {id : StructId} (h : name ∉ guard.names)
    (hid : g.lookup name = some id) :
    referent? g guard name = some (.struct id (g.get? id)) := by
  rw [referent?, if_neg fun hc => h ((CycleGuard.contains_iff ..).1 hc), hid, Option.map_some]

def Referent.link : Referent → Link
  | .cycle trace => .cycle trace
  | .struct id _ => .struct id

theorem recordField_link (base : Field) (referent : Referent) :
    (recordField base referent).link = referent.link := by
  cases referent with
  | cycle trace => rfl
  | struct id target =>
      rw [recordField]
      split <;> rfl

theorem recordListField_link (base : Field) (referent : Referent) :
    (recordListField base referent).link = referent.link := by
  cases referent <;> rfl

/-- A field leads where the reference of its declaration does. -/
theorem link_fieldOf (decl : FieldDecl) (tag : Tag) (shape : Shape)
    (follow : String → Option Referent) :
    (fieldOf decl tag shape (shape.reference?.bind follow)).link =
      (shape.reference?.bind follow).elim .none Referent.link := by
  cases shape with
  | scalar kind =>
      rw [fieldOf, scalarField]
      split <;> rfl
  | scalarList kind => rfl
  | nestedList => rfl
  | anonymous => rfl
  | record name =>
      rw [Shape.reference?, Option.bind_some]
      cases follow name with
      | none => rfl
      | some referent => exact recordField_link ..
  | recordList name =>
      rw [Shape.reference?, Option.bind_some]
      cases follow name with
      | none => rfl
      | some referent => exact recordListField_link ..

/-- A field that leads to a struct leads to the struct of a name that is not under analysis. -/
theorem exists_lookup_of_target?_fieldOf {decl : FieldDecl} {tag : Tag} {shape : Shape}
    {id : StructId}
    (h : (fieldOf decl tag shape (shape.reference?.bind (referent? g guard))).target? = some id) :
    ∃ name, shape.reference? = some name ∧ name ∉ guard.names ∧ g.lookup name = some id := by
  rw [Field.target?, link_fieldOf] at h
  cases hname : shape.reference? with
  | none =>
      rw [hname] at h
      cases h
  | some name =>
      rw [hname, Option.bind_some] at h
      by_cases hguard : name ∈ guard.names
      · rw [referent?_of_mem hguard] at h
        cases h
      · cases hid : g.lookup name with
        | none =>
            rw [referent?, if_neg fun hc => hguard ((CycleGuard.contains_iff ..).1 hc), hid] at h
            cases h
        | some id' =>
            rw [referent?_of_lookup hguard hid] at h
            exact ⟨name, rfl, hguard, h ▸ hid⟩

/-! ## Steps -/

/-- The fields a step of a body gives. -/
def stepFields (g : Graph) (guard : CycleGuard) (step : BodyStep) : List Field :=
  match step.item with
  | .field decl tag shape => [fieldOf decl tag shape (shape.reference?.bind (referent? g guard))]
  | .embed record =>
    if guard.contains record then [] else (g.find? record).elim [] Struct.fields

/-- The fields a step of a body gives to the struct `owner` in the end. -/
def finishedFields (g : Graph) (guard : CycleGuard) (owner : String) (step : BodyStep) :
    List Field :=
  match step.item with
  | .field decl tag shape =>
    finishField g owner (fieldOf decl tag shape (shape.reference?.bind (referent? g guard)))
  | .embed record =>
    if guard.contains record then []
    else ((g.find? record).elim [] Struct.fields).map (overrideField owner)

/-- The fields a declaration gives to the struct `owner`. -/
def bodyFields (g : Graph) (guard : CycleGuard) (owner : String) (fields : List FieldDecl) :
    List Field :=
  (bodySteps fields).flatMap (finishedFields g guard owner)

theorem bodyFields_append (front back : List FieldDecl) :
    bodyFields g guard owner (front ++ back) =
      bodyFields g guard owner front ++ bodyFields g guard owner back := by
  rw [bodyFields, bodySteps_append, List.flatMap_append]
  rfl

theorem bodyFields_cons (f : FieldDecl) (rest : List FieldDecl) :
    bodyFields g guard owner (f :: rest) =
      bodyFields g guard owner [f] ++ bodyFields g guard owner rest :=
  bodyFields_append [f] rest

/-- A field that comes from an embedded record is an overridden field of its struct. -/
theorem exists_of_mem_finishedFields {step : BodyStep} {e : String} {f : Field}
    (hitem : step.item = .embed e) (hf : f ∈ finishedFields g guard owner step) :
    ∃ t, g.find? e = some t ∧ ∃ f' ∈ t.fields, f = overrideField owner f' := by
  rw [finishedFields, hitem] at hf
  simp only at hf
  split at hf
  · cases hf
  · obtain ⟨f', hf', rfl⟩ := List.mem_map.1 hf
    cases ht : g.find? e with
    | none =>
        rw [ht] at hf'
        cases hf'
    | some t =>
        rw [ht] at hf'
        exact ⟨t, rfl, f', hf', rfl⟩

/-- Structs without markers give fields that only have to be overridden. -/
theorem flatMap_stepFields (step : BodyStep)
    (hplain : ∀ t ∈ g.structs, ∀ f ∈ t.fields, f.isFlattenMarker = false) :
    (stepFields g guard step).flatMap (finishField g owner) =
      finishedFields g guard owner step := by
  rw [stepFields, finishedFields]
  split
  · exact List.flatMap_singleton ..
  · rename_i record _
    split
    · rfl
    · refine flatMap_finishField_of_not_marker fun f hf => ?_
      cases ht : g.find? record with
      | none =>
          rw [ht] at hf
          cases hf
      | some t =>
          rw [ht] at hf
          obtain ⟨id, -, hid⟩ := Option.bind_eq_some_iff.1 ht
          exact hplain t (List.mem_of_getElem? hid) f hf

/-! ## Graphs that agree -/

/-- The name has the same place and the same struct in both graphs. -/
structure Agree (g g' : Graph) (name : String) : Prop where
  lookup : g'.lookup name = g.lookup name
  find? : g'.find? name = g.find? name

theorem Agree.get? {id : StructId} (h : Agree g g' name) (hid : g.lookup name = some id) :
    g'.get? id = g.get? id := by
  have hfind := h.find?
  rwa [Graph.find?, Graph.find?, h.lookup, hid, Option.bind_some, Option.bind_some] at hfind

theorem referent?_congr (h : name ∉ guard.names → Agree g g' name) :
    referent? g' guard name = referent? g guard name := by
  by_cases hguard : name ∈ guard.names
  · rw [referent?_of_mem hguard, referent?_of_mem hguard]
  · rw [referent?, referent?, (h hguard).lookup]
    cases hid : g.lookup name with
    | none => rfl
    | some id => rw [Option.map_some, Option.map_some, (h hguard).get? hid]

theorem stepFields_congr {step : BodyStep}
    (h : ∀ name, step.reference? = some name → name ∉ guard.names → Agree g g' name) :
    stepFields g' guard step = stepFields g guard step := by
  rw [BodyStep.reference?] at h
  rw [stepFields, stepFields]
  split
  · rename_i decl tag shape hitem
    rw [hitem] at h
    have hbind : shape.reference?.bind (referent? g' guard) =
        shape.reference?.bind (referent? g guard) :=
      Option.bind_congr fun name hname => referent?_congr (h name hname)
    rw [hbind]
  · rename_i record hitem
    rw [hitem] at h
    split
    · rfl
    · rename_i hguard
      rw [(h record rfl fun hmem => hguard ((CycleGuard.contains_iff ..).2 hmem)).find?]

theorem expandField_congr {f : Field} (h : g'.target? f = g.target? f) :
    expandField g' f = expandField g f := by
  rw [expandField, expandField, expansion?, expansion?, h]

theorem finishField_congr {f : Field} (h : g'.target? f = g.target? f) :
    finishField g' owner f = finishField g owner f := by
  rw [finishField, finishField]
  refine congrArg _ (expandField_congr ?_)
  rwa [Graph.target?, Graph.target?, Field.target?, overrideField_link]

/-- Graphs that agree on the references of a step finish its fields alike. -/
theorem finishedFields_congr {step : BodyStep}
    (h : ∀ name, step.reference? = some name → name ∉ guard.names → Agree g g' name) :
    finishedFields g' guard owner step = finishedFields g guard owner step := by
  have hstep := stepFields_congr h
  rw [stepFields, stepFields] at hstep
  rw [BodyStep.reference?] at h
  rw [finishedFields, finishedFields]
  cases hitem : step.item with
  | field decl tag shape =>
      rw [hitem] at h hstep
      simp only [List.cons.injEq, and_true] at hstep
      simp only [hstep]
      refine finishField_congr ?_
      rw [Graph.target?, Graph.target?]
      refine Option.bind_congr fun id hid => ?_
      obtain ⟨name, hname, hguard, hid⟩ := exists_lookup_of_target?_fieldOf hid
      exact (h name hname hguard).get? hid
  | embed record =>
      rw [hitem] at hstep
      simp only at hstep ⊢
      split
      · rfl
      · rename_i hguard
        rw [if_neg hguard, if_neg hguard] at hstep
        rw [hstep]

theorem bodyFields_congr {fields : List FieldDecl}
    (h : ∀ name ∈ references fields, name ∉ guard.names → Agree g g' name) :
    bodyFields g' guard owner fields = bodyFields g guard owner fields :=
  List.flatMap_congr fun step hstep => finishedFields_congr fun name hname =>
    h name (mem_references.2 ⟨step, hstep, hname⟩)

end RecordSchema.Reflection
