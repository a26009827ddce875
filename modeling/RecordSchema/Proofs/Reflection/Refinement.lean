import RecordSchema.Proofs.Reflection.Effect
import RecordSchema.Proofs.Reflection.Form

/-!
# Walks grow graphs

A walk that succeeds passes only through grown states: a visit brings the record that is asked for
under analysis, with everything it refers to, and lets it leave again.  So whatever holds of grown
states holds of a reflector after any calls.
-/

namespace RecordSchema.Reflection

open Schema (Field Graph HasForm StructId)

variable {c : Catalog} {known : RecordDecl → Prop} {v : String → Walk StructId}
  {s s' s'' : WalkState} {frames frames' frames'' : List Frame} {f : Frame} {name : String}

/-- Structs that are not changed any more are found as before. -/
theorem WalkState.Continues.agree (h : s.Continues s') (hs : s.graph.Indexed)
    (hname : name ∈ s.graph.names) : Agree s.graph s'.graph name := by
  obtain ⟨id, hid⟩ := hs.mem_names_iff.1 hname
  have hext := hs.extends h.indexed h.structs
  obtain ⟨t, ht⟩ := Graph.get?_eq_some_iff_lt.2 (hs.lookup_lt hid)
  have hid' := hext.lookup name id hid
  refine ⟨hid'.trans hid.symm, ?_⟩
  rw [Graph.find?_eq_get? hid', Graph.find?_eq_get? hid, ht, hext.get? id t ht]

/-- The walk has gone on from a grown state to another one. -/
structure Grows (c : Catalog) (known : RecordDecl → Prop) (s : WalkState) (frames : List Frame)
    (s' : WalkState) (frames' : List Frame) : Prop where
  grown : Grown c known s' frames'
  frames : frames <+: frames'
  continues : s.Continues s'

namespace Grows

theorem refl (h : Grown c known s frames) : Grows c known s frames s frames :=
  ⟨h, List.prefix_rfl, .refl h.indexed⟩

theorem trans (h : Grows c known s frames s' frames') (h' : Grows c known s' frames' s'' frames'') :
    Grows c known s frames s'' frames'' :=
  ⟨h'.grown, h.frames.trans h'.frames, h.continues.trans h'.continues⟩

end Grows

/-- Visits that let the graph grow; a visited name has a struct in the end. -/
def Growing (c : Catalog) (known : RecordDecl → Prop) (v : String → Walk StructId) : Prop :=
  ∀ name s frames, Grown c known s frames →
    (∀ f ∈ frames, f.guard = s.guard → name ∈ f.references) →
    (v name).Ensures s
      (fun id s' => ∃ frames', Grows c known s frames s' frames' ∧ s'.graph.lookup name = some id)
      fun _ _ => True

/-! ## Bodies -/

/-- The innermost record asks for what it refers to, and nobody else asks for anything. -/
theorem Grown.asked (h : Grown c known s frames) (hf : f ∈ frames) (hguard : f.guard = s.guard)
    (hname : name ∈ f.references) : ∀ f' ∈ frames, f'.guard = s.guard → name ∈ f'.references := by
  intro f' hf' hguard'
  rwa [h.frame_ext_of_guard_eq hf' hf (hguard'.trans hguard.symm)]

theorem Growing.refer (hv : Growing c known v) (h : Grown c known s frames) (hf : f ∈ frames)
    (hguard : f.guard = s.guard) (hname : name ∈ f.references) :
    (refer v name).Ensures s
      (fun referent s' => ∃ frames', Grows c known s frames s' frames' ∧
        referent? s'.graph s'.guard name = some referent ∧ name ∈ s'.graph.names)
      fun _ _ => True := by
  by_cases hon : name ∈ s.guard.names
  · refine (Walk.ensures_refer_of_mem hon).2 ⟨frames, .refl h, ?_, h.guard_subset_names hon⟩
    exact referent?_of_mem hon
  · refine (hv name s frames h (h.asked hf hguard hname)).refer hon ?_
    rintro id s' ⟨frames', hgrows, hid⟩
    refine ⟨frames', hgrows, ?_, hgrows.grown.indexed.mem_names_iff.2 ⟨id, hid⟩⟩
    exact referent?_of_lookup (hgrows.continues.guard ▸ hon) hid

/-- The fields of a step are those read off the state it ends in. -/
theorem Growing.walkStep (hv : Growing c known v) (h : Grown c known s frames) (hf : f ∈ frames)
    (hguard : f.guard = s.guard) {step : BodyStep}
    (hstep : ∀ name, step.reference? = some name → name ∈ f.references) :
    (walkStep v step).Ensures s
      (fun fields s' => ∃ frames', Grows c known s frames s' frames' ∧
        fields = stepFields s'.graph s'.guard step ∧
        ∀ name, step.reference? = some name → name ∈ s'.graph.names)
      fun _ _ => True := by
  rw [BodyStep.reference?] at hstep
  rw [Reflection.walkStep]
  simp only [stepFields, BodyStep.reference?]
  cases hitem : step.item with
  | field decl tag shape =>
      rw [hitem] at hstep
      refine (Walk.ensures_map _).2 ?_
      rw [analyze]
      simp only at hstep ⊢
      cases hname : shape.reference? with
      | none => exact (Walk.ensures_pure _).2 ⟨frames, .refl h, rfl, fun _ h => by cases h⟩
      | some name =>
          refine (Walk.ensures_map _).2 ((hv.refer h hf hguard (hstep name hname)).mono ?_ ?_)
          · rintro referent s' ⟨frames', hgrows, hreferent, hmem⟩
            refine ⟨frames', hgrows, ?_, fun _ h => Option.some.inj h ▸ hmem⟩
            rw [Option.bind_some, hreferent]
            rfl
          · exact fun _ _ h => h
  | embed record =>
      rw [hitem] at hstep
      have hrecord := hstep record rfl
      refine (hv record s frames h (h.asked hf hguard hrecord)).bind ?_ fun _ _ h => h
      rintro id s' ⟨frames', hgrows, hid⟩
      have hgrown := hgrows.grown
      refine ⟨frames', hgrows, ?_, fun _ h => Option.some.inj h ▸
        hgrown.indexed.mem_names_iff.2 ⟨id, hid⟩⟩
      simp only
      rw [Graph.fieldsAt, ← Graph.find?_eq_get? hid]
      split
      · rename_i hon
        cases ht : s'.graph.find? record with
        | none => rfl
        | some t => exact hgrown.fields_of_mem_guard ((CycleGuard.contains_iff ..).1 hon) ht
      · rfl

/-- The fields of a body are those read off the state it ends in: what later steps add changes
nothing for the earlier ones. -/
theorem Growing.walkBody (hv : Growing c known v) (owner : String) {steps : List BodyStep}
    (h : Grown c known s frames) (hf : f ∈ frames) (hguard : f.guard = s.guard)
    (hsteps : ∀ step ∈ steps, ∀ name, step.reference? = some name → name ∈ f.references) :
    (walkBody v owner steps).Ensures s
      (fun fields s' => ∃ frames', Grows c known s frames s' frames' ∧
        fields = steps.flatMap (stepFields s'.graph s'.guard) ∧
        ∀ step ∈ steps, ∀ name, step.reference? = some name → name ∈ s'.graph.names)
      fun _ _ => True := by
  induction steps generalizing s frames with
  | nil => exact (Walk.ensures_pure _).2 ⟨frames, .refl h, rfl, fun _ h => by cases h⟩
  | cons step rest ih =>
      obtain ⟨hstep, hrest⟩ := List.forall_mem_cons.1 hsteps
      refine Walk.Ensures.bind
        ((Walk.ensures_adaptExcept _).2 (hv.walkStep h hf hguard hstep)) ?_ fun _ _ h => h
      rintro fields s₁ ⟨frames₁, hgrows₁, rfl, hmet₁⟩
      have hf₁ := hgrows₁.frames.subset hf
      have hguard₁ := hguard.trans hgrows₁.continues.guard.symm
      refine (Walk.ensures_map _).2 ((ih hgrows₁.grown hf₁ hguard₁ hrest).mono ?_ fun _ _ h => h)
      rintro fields s₂ ⟨frames₂, hgrows₂, rfl, hmet₂⟩
      have hagree (name : String) (hname : step.reference? = some name) :=
        hgrows₂.continues.agree hgrows₁.grown.indexed (hmet₁ name hname)
      refine ⟨frames₂, hgrows₁.trans hgrows₂, ?_,
        List.forall_mem_cons.2 ⟨fun name hname => ?_, hmet₂⟩⟩
      · rw [List.flatMap_cons, hgrows₂.continues.guard,
          stepFields_congr fun name hname _ => hagree name hname]
      · obtain ⟨id, hid⟩ := hgrows₁.grown.indexed.mem_names_iff.1 (hmet₁ name hname)
        exact hgrows₂.grown.indexed.mem_names_iff.2 ⟨id, (hagree name hname).lookup.trans hid⟩

/-! ## Records -/

theorem Growing.walkRecord (hv : Growing c known v) {r : RecordDecl} (hknown : known r)
    (h : Grown c known s frames)
    (hasked : ∀ f ∈ frames, f.guard = s.guard → r.name ∈ f.references) :
    (walkRecord c v r).Ensures s
      (fun id s' => ∃ frames', Grows c known s frames s' frames' ∧
        s'.graph.lookup r.name = some id)
      fun _ _ => True := by
  cases ha : r.isAnonymous with
  | true => exact (Walk.ensures_walkRecord_of_anonymous ha).2 trivial
  | false =>
      cases hl : s.graph.lookup r.name with
      | some id => exact (Walk.ensures_walkRecord_of_lookup ha hl).2 ⟨frames, .refl h, hl⟩
      | none =>
          have hgrown := Grown.enter h hknown hl hasked
          have hsteps : ∀ step ∈ bodySteps r.fields, ∀ name, step.reference? = some name →
              name ∈ (Frame.mk r (s.guard.push r.name)).references :=
            fun step hstep name hname => mem_references.2 ⟨step, hstep, hname⟩
          refine (Walk.ensures_walkRecord_of_fresh ha hl).2
            ((hv.walkBody r.name hgrown List.mem_concat_self rfl hsteps).mono ?_ fun _ _ h => h)
          rintro fields s' ⟨frames', hgrows, rfl, hmet⟩
          have hindex : frames'[s.graph.size]? = some ⟨r, s.guard.push r.name⟩ := by
            obtain ⟨added, hadded⟩ := hgrows.frames
            rw [← hadded, h.size_eq, List.getElem?_append_left (by simp),
              List.getElem?_concat_length]
          have hplain : ∀ t ∈ s'.graph.structs, ∀ f ∈ t.fields, f.isFlattenMarker = false :=
            fun t ht f hf => by
              obtain ⟨form, hform⟩ := hgrows.grown.formed t ht f hf
              exact hform.not_marker
          have hfields : finishFields s'.graph r.name
              ((bodySteps r.fields).flatMap (stepFields s'.graph s'.guard)) =
                (Frame.mk r (s.guard.push r.name)).fieldsIn s'.graph := by
            rw [finishFields_eq_flatMap, List.flatMap_assoc, hgrows.continues.guard]
            exact List.flatMap_congr fun step _ => flatMap_stepFields step hplain
          have hleave := Grown.leave hgrows.grown hindex hgrows.continues.guard.symm
            fun name hname => by
              obtain ⟨step, hstep, hname⟩ := mem_references.1 hname
              exact hmet step hstep name hname
          rw [hfields]
          exact ⟨frames', ⟨hleave, (List.prefix_append ..).trans hgrows.frames,
            hgrows.continues.leave _⟩, hleave.lookup_eq hindex⟩

/-- Reflection lets the graph grow. -/
theorem growing_visit (hknown : ∀ r ∈ c.records, known r) (room : Nat) :
    Growing c known (visit c room) := by
  induction room using Nat.strongRecOn with
  | ind room ih =>
      intro name s frames h hasked
      refine Walk.Ensures.visit (fun id hl => ⟨frames, .refl h, hl⟩) trivial ?_
      intro less r hless _ hr
      obtain ⟨hmem, rfl⟩ := Catalog.mem_of_find?_eq_some hr
      exact (ih less hless).walkRecord (hknown r hmem) h hasked

/-! ## Reflectors -/

namespace Reflector

/-- Between calls nobody asks for anything. -/
theorem notAsked {r : Reflector} (h : Grown c known r.toWalkState frames)
    (hguard : r.guard = .empty) {p : Frame → Prop} : ∀ f ∈ frames, f.guard = r.guard → p f := by
  intro f hf hf'
  have hmem := h.name_mem_guard hf
  rw [hf', hguard] at hmem
  cases hmem

/-- What a walk has let grow is kept if it succeeds, and nothing is kept if it fails. -/
theorem run_grown {r : Reflector} {w : Walk StructId} (h : Grown c known r.toWalkState frames)
    (hsteady : w.Ensures r.toWalkState (fun _ => r.toWalkState.Continues)
      fun _ s' => s' = r.toWalkState)
    (hgrowing : w.Ensures r.toWalkState
      (fun id s' => ∃ frames', Grows c known r.toWalkState frames s' frames' ∧
        s'.graph.lookup name = some id)
      fun _ _ => True) :
    ∃ frames', Grown c known (r.run w).2.toWalkState frames' := by
  have hboth := (run_of_ensures (hsteady.and hgrowing)).2
  split at hboth
  · obtain ⟨-, frames', hgrows, -⟩ := hboth
    exact ⟨frames', hgrows.grown⟩
  · exact ⟨frames, hboth.1 ▸ h⟩

/-- A call lets the graph grow, or it changes nothing. -/
theorem call_grown {r : Reflector} (h : Grown c known r.toWalkState frames)
    (hcatalog : r.catalog = c) (hguard : r.guard = .empty) (hknown : ∀ d ∈ c.records, known d)
    (k : Call) (hk : ∀ d, k = .reflectRecord d → known d) :
    ∃ frames', Grown c known (r.call k).2.toWalkState frames' := by
  subst hcatalog
  have hsteady := steady_visit r.catalog r.catalog.size
  have hgrowing := growing_visit hknown r.catalog.size
  have hreflect (name : String) :
      ∃ frames', Grown r.catalog known (r.reflect name).2.toWalkState frames' :=
    run_grown h (hsteady name r.toWalkState h.indexed)
      (hgrowing name r.toWalkState frames h (notAsked h hguard))
  cases k with
  | reflect name => exact hreflect name
  | reflectRecord decl =>
      exact run_grown h (hsteady.walkRecord r.catalog decl h.indexed)
        (hgrowing.walkRecord (hk decl rfl) h (notAsked h hguard))
  | reflectType ty =>
      rw [call, reflectType]
      split
      · exact hreflect _
      · exact ⟨frames, h⟩
      · exact ⟨frames, h⟩

theorem after_concat (c : Catalog) (calls : List Call) (k : Call) :
    after c (calls ++ [k]) = ((after c calls).call k).2 := List.foldl_concat ..

/-- Any calls leave a grown state. -/
theorem after_grown (hknown : ∀ r ∈ c.records, known r) (calls : List Call)
    (hcalls : ∀ r, .reflectRecord r ∈ calls → known r) :
    ∃ frames, Grown c known (after c calls).toWalkState frames := by
  induction calls using List.reverseRecOn with
  | nil => exact ⟨[], .start⟩
  | append_singleton calls k ih =>
      obtain ⟨frames, h⟩ := ih fun r hr => hcalls r (List.mem_append_left _ hr)
      rw [after_concat]
      refine call_grown h (after_catalog c calls) (after_guard c calls) hknown k ?_
      rintro r rfl
      exact hcalls r List.mem_concat_self

/-- After any calls no field is left to be taken apart, and every field has exactly one form. -/
theorem after_existsUnique_form (c : Catalog) (calls : List Call) {t : Schema.Struct}
    (ht : t ∈ (after c calls).graph.structs) {f : Field} (hf : f ∈ t.fields) :
    f.isFlattenMarker = false ∧ ∃! form, HasForm (after c calls).graph f form := by
  rcases after_grown (c := c) (fun _ _ => trivial) calls
    (fun _ _ => trivial) with ⟨frames, h⟩
  obtain ⟨form, hform⟩ := h.formed t ht f hf
  exact ⟨hform.not_marker, form, hform, fun _ h => h.unique hform⟩

/-- An amount of memory has a unit, which shows beside it. -/
def memoryCatalog : Catalog :=
  .ofRecords "domain"
    [{ name := "Memory"
       fields :=
        [{ name := "Value", ty := .scalar .uint
           tag := some { name := "", node := .charData } },
         { name := "Unit", ty := .scalar .string
           tag := some { name := "unit", node := .attr } }] },
     { name := "Domain"
       fields :=
        [{ name := "Memory", ty := .named "Memory"
           tag := some { name := "memory", node := .element } }] }]

theorem after_existsUnique_form_memory :
    ∃ t ∈ (after memoryCatalog [.reflect "Domain"]).graph.structs, ∃ f ∈ t.fields,
      f.outputName = "memory_unit" ∧
        ∃! form, HasForm (after memoryCatalog [.reflect "Domain"]).graph f form := by
  have hfield : ∃ t ∈ (after memoryCatalog [.reflect "Domain"]).graph.structs, ∃ f ∈ t.fields,
      f.outputName = "memory_unit" := by decide +kernel
  obtain ⟨t, ht, f, hf, hname⟩ := hfield
  exact ⟨t, ht, f, hf, hname, (after_existsUnique_form memoryCatalog _ ht hf).2⟩

end Reflector

end RecordSchema.Reflection
