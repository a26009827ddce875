import RecordSchema.Proofs.Reflection.Reference
import RecordSchema.Proofs.Reflection.Termination

/-!
# The way to a fault

A record cannot be reflected because something refers to a name that is not declared.  The error
says where: it is a chain of fields and embedded records that leads from the record that was asked
for along its declarations to that name.
-/

namespace RecordSchema.Reflection

open Schema (Field StructId)

variable {c : Catalog} {e : ReflectError} {name : String}

mutual

/-- The error leads from the record `name` to a name that is not declared. -/
inductive FailsAt (c : Catalog) : String → ReflectError → Prop
  | undeclared {name : String} (unknown : c.find? name = none) :
      FailsAt c name (.unknownRecord name)
  | within {name : String} {r : RecordDecl} {e : ReflectError} (find : c.find? name = some r)
      (inner : FailsIn c name r.fields e) : FailsAt c name e

/-- The error leads from the fields, which belong to the record `owner`, to a name that is not
declared.  A record declared in place has no name of its own: its fields belong to the same
record. -/
inductive FailsIn (c : Catalog) : String → List FieldDecl → ReflectError → Prop
  | field {owner name : String} {fields : List FieldDecl} {f : FieldDecl} {e : ReflectError}
      (mem : f ∈ fields) (serialized : f.isSerialized = true) (plain : f.embedded = false)
      (type : f.ty.Names name) (next : FailsAt c name e) :
      FailsIn c owner fields (.field owner f.name e)
  | embedded {owner name : String} {fields : List FieldDecl} {f : FieldDecl} {e : ReflectError}
      (mem : f ∈ fields) (exported : f.exported = true) (embedded : f.embedded = true)
      (type : f.ty.recordName? = some name) (next : FailsAt c name e) :
      FailsIn c owner fields (.embedded owner name e)
  | inline {owner : String} {fields : List FieldDecl} {f : FieldDecl} {r : RecordDecl}
      {e : ReflectError} (mem : f ∈ fields) (exported : f.exported = true)
      (embedded : f.embedded = true) (type : f.ty.stripOptional = .inline r)
      (inner : FailsIn c owner r.fields e) :
      FailsIn c owner fields (.embedded owner f.ty.display e)

end

/-! ## Steps -/

/-- The context of a step says how the fields lead to the record that it refers to. -/
theorem failsIn_context {fields : List FieldDecl} {step : BodyStep} (owner : String)
    (hstep : step ∈ bodySteps fields) (hname : step.reference? = some name)
    (h : FailsAt c name e) :
    FailsIn c owner fields (step.context owner e) := by
  induction hstep using bodySteps_induction with
  | field hf hserialized hplain =>
      exact .field hf hserialized hplain (TypeExpr.reference?_shape_eq_some_iff.1 hname) h
  | embed hf hexported hembedded he =>
      obtain rfl := Option.some.inj hname
      exact .embedded hf hexported hembedded he h
  | inside hf hexported hembedded hr _ ih =>
      exact .inline hf hexported hembedded hr (ih hname)

theorem Outcome.eq_error_of_map {α β : Type} {out : Outcome α} {give : α → WalkState → β}
    {s' : WalkState} (h : out.map give = .error e s') : out = .error e s' := by
  cases out with
  | ok a s =>
      rw [Outcome.map] at h
      cases h
  | error e s =>
      cases h
      rfl

/-! ## Walks -/

/-- If no record of the catalog is without a name, those that have one are not anonymous. -/
theorem not_anonymous_of_find? (hnamed : "" ∉ c.names) {r : RecordDecl}
    (hr : c.find? name = some r) : r.isAnonymous = false := by
  obtain ⟨hmem, -⟩ := Catalog.mem_of_find?_eq_some hr
  rw [RecordDecl.isAnonymous, Bool.eq_false_iff]
  intro hempty
  refine hnamed (List.mem_map.2 ⟨r, hmem, ?_⟩)
  simpa using hempty

mutual

theorem VisitRuns.failsAt {name : String} {s s' : WalkState} {trace : List Frame}
    {out : Outcome StructId} {e : ReflectError} (hnamed : "" ∉ c.names)
    (h : VisitRuns c name s trace out) : out = .error e s' → FailsAt c name e := by
  match h with
  | .found _ => exact fun herror => by cases herror
  | .unknown _ hunknown =>
      intro herror
      cases herror
      exact .undeclared hunknown
  | .record _ hr hrecord =>
      intro herror
      have hinner := RecordRuns.failsIn hnamed hrecord (not_anonymous_of_find? hnamed hr) herror
      obtain ⟨-, rfl⟩ := Catalog.mem_of_find?_eq_some hr
      exact .within hr hinner

theorem RecordRuns.failsIn {r : RecordDecl} {s s' : WalkState} {trace : List Frame}
    {out : Outcome StructId} {e : ReflectError} (hnamed : "" ∉ c.names)
    (h : RecordRuns c r s trace out) :
    r.isAnonymous = false → out = .error e s' → FailsIn c r.name r.fields e := by
  match h with
  | .anonymous hanonymous =>
      intro hr
      rw [hanonymous] at hr
      cases hr
  | .found _ _ => exact fun _ herror => by cases herror
  | .filled _ _ _ => exact fun _ herror => by cases herror
  | .cut _ _ h =>
      intro _ herror
      have hinner := BodyRuns.failsIn hnamed h (List.Subset.refl _) rfl
      cases herror
      exact hinner

theorem BodyRuns.failsIn {owner : String} {steps : List BodyStep} {fields : List FieldDecl}
    {s s' : WalkState} {trace : List Frame} {out : Outcome (List Field)} {e : ReflectError}
    (hnamed : "" ∉ c.names) (h : BodyRuns c owner steps s trace out) :
    steps ⊆ bodySteps fields → out = .error e s' → FailsIn c owner fields e := by
  match h with
  | .done => exact fun _ herror => by cases herror
  | .next _ h =>
      intro hsteps herror
      exact BodyRuns.failsIn hnamed h (List.cons_subset.1 hsteps).2
        (Outcome.eq_error_of_map herror)
  | .failed hstep =>
      intro hsteps herror
      obtain ⟨name, hname, hfails⟩ := StepRuns.failsAt hnamed hstep rfl
      cases herror
      exact failsIn_context owner (List.cons_subset.1 hsteps).1 hname hfails

theorem StepRuns.failsAt {step : BodyStep} {s s' : WalkState} {trace : List Frame}
    {out : Outcome (List Field)} {e : ReflectError} (hnamed : "" ∉ c.names)
    (h : StepRuns c step s trace out) :
    out = .error e s' → ∃ name, step.reference? = some name ∧ FailsAt c name e := by
  match h with
  | .plain _ _ => exact fun herror => by cases herror
  | .back _ _ _ => exact fun herror => by cases herror
  | .linked hitem hname _ h =>
      intro herror
      refine ⟨_, ?_, VisitRuns.failsAt hnamed h (Outcome.eq_error_of_map herror)⟩
      rw [BodyStep.reference?, hitem]
      exact hname
  | .embedded hitem h =>
      intro herror
      refine ⟨_, ?_, VisitRuns.failsAt hnamed h (Outcome.eq_error_of_map herror)⟩
      rw [BodyStep.reference?, hitem]

end

/-! ## Requests -/

namespace Reflector

/-- A request that fails answers with the error of its walk. -/
theorem exists_visitRuns_of_error {r : Reflector} (hs : r.graph.Indexed)
    (herror : (r.reflect name).1 = .error e) :
    ∃ trace s', VisitRuns r.catalog name r.toWalkState trace (.error e s') := by
  obtain ⟨trace, h⟩ := exists_visitRuns r.catalog name hs
  rw [reflect, run_eq_answer] at herror
  cases hout : visit r.catalog r.catalog.size name r.toWalkState with
  | ok id s =>
      rw [hout] at herror
      cases herror
  | error e' s =>
      rw [hout] at herror h
      cases herror
      exact ⟨trace, s, h⟩

/-- After any calls, a request fails because its name is not declared, or with a chain of contexts
that leads from the record along fields and embedded records to a name that is not declared. -/
theorem after_error_leads_to_fault (c : Catalog) (earlier : List Call) {name : String}
    {e : ReflectError} (hnamed : "" ∉ c.names)
    (herror : ((after c earlier).reflect name).1 = .error e) :
    (c.find? name = none ∧ e = .unknownRecord name) ∨
      ∃ r, c.find? name = some r ∧ FailsIn c name r.fields e := by
  obtain ⟨trace, s', h⟩ := exists_visitRuns_of_error (after_indexed c earlier) herror
  rw [after_catalog] at h
  cases h.failsAt hnamed rfl with
  | undeclared unknown => exact .inl ⟨unknown, rfl⟩
  | within find inner => exact .inr ⟨_, find, inner⟩

/-- A domain whose disks keep their source among fields declared in place; what the source has in
common with others is not declared. -/
def sourceCatalog : Catalog :=
  .ofRecords "storage"
    [{ name := "Domain"
       fields :=
        [{ name := "Title", ty := .optional (.named "Title")
           tag := some { name := "title", node := .element } },
         { name := "Disks", ty := .list (.named "Disk")
           tag := some { name := "disk", node := .element } }] },
     { name := "Title"
       fields :=
        [{ name := "Value", ty := .scalar .string
           tag := some { name := "", node := .charData } }] },
     { name := "Disk"
       fields :=
        [.embed (.inline
          { fields :=
              [{ name := "Source", ty := .optional (.named "Source")
                 tag := some { name := "source", node := .element } }] })] },
     { name := "Source", fields := [.embed (.named "Common")] }]

/-- The error that a request for the domain answers with. -/
def sourceError : ReflectError :=
  .field "Domain" "Disks"
    (.embedded "Disk" "record \x7b .. \x7d"
      (.field "Disk" "Source" (.embedded "Source" "Common" (.unknownRecord "Common"))))

/-- A request for the domain fails, also after one that succeeds and one that fails. -/
theorem after_error_leads_to_fault_domain :
    let calls := [.reflect "Title", .reflect "Disk"]
    "" ∉ sourceCatalog.names ∧
      ((after sourceCatalog calls).reflect "Domain").1 = .error sourceError ∧
      ∃ r, sourceCatalog.find? "Domain" = some r ∧
        FailsIn sourceCatalog "Domain" r.fields sourceError := by
  intro calls
  have hnamed : "" ∉ sourceCatalog.names := by decide
  have herror : ((after sourceCatalog calls).reflect "Domain").1 = .error sourceError := by
    decide +kernel
  refine ⟨hnamed, herror, ?_⟩
  rcases after_error_leads_to_fault sourceCatalog calls hnamed herror with ⟨-, hunknown⟩ | hpath
  · cases hunknown
  · exact hpath

end Reflector

end RecordSchema.Reflection
