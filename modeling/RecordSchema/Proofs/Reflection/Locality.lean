import RecordSchema.Proofs.Catalog.Agreement
import RecordSchema.Proofs.Reflection.Derivation
import RecordSchema.Proofs.Reflection.Reference

/-!
# What a visit asks of the catalog

A visit asks the catalog only for records that the visited one reaches.  So two catalogs that have
the same declarations there reflect the record in the same way, whatever else they have and in
whichever order they have it.
-/

namespace RecordSchema.Reflection

open Schema (Field StructId)

variable {c c' : Catalog} {s : WalkState}

/-! ## Walks -/

theorem placeholder_eq (hpackage : c'.package = c.package) (r : RecordDecl) :
    placeholder c' r = placeholder c r := by
  rw [placeholder, hpackage, placeholder]

mutual

theorem VisitRuns.transport {name : String} {s : WalkState} {trace : List Frame}
    {out : Outcome StructId} (h : VisitRuns c name s trace out) :
    c.AgreeFrom c' name → VisitRuns c' name s trace out := by
  match h with
  | .found hid => exact fun _ => .found hid
  | .unknown hfresh hunknown =>
      exact fun hagree => .unknown hfresh ((hagree.find?_eq name .refl).trans hunknown)
  | .record hfresh hr h =>
      intro hagree
      exact .record hfresh ((hagree.find?_eq name .refl).trans hr)
        (RecordRuns.transport h hagree.package fun _ hm =>
          hagree.of_mentions (refersTo_iff_mentions.1 ⟨_, hr, hm⟩))

theorem RecordRuns.transport {r : RecordDecl} {s : WalkState} {trace : List Frame}
    {out : Outcome StructId} (h : RecordRuns c r s trace out) :
    c'.package = c.package → (∀ m ∈ references r.fields, c.AgreeFrom c' m) →
      RecordRuns c' r s trace out := by
  match h with
  | .anonymous hanonymous => exact fun _ _ => .anonymous hanonymous
  | .found hnamed hid => exact fun _ _ => .found hnamed hid
  | .filled hnamed hfresh h =>
      intro hpackage hagree
      have hbody := BodyRuns.transport h fun step hstep m hm =>
        hagree m (mem_references.2 ⟨step, hstep, hm⟩)
      rw [← placeholder_eq hpackage] at hbody
      exact .filled hnamed hfresh hbody
  | .cut hnamed hfresh h =>
      intro hpackage hagree
      have hbody := BodyRuns.transport h fun step hstep m hm =>
        hagree m (mem_references.2 ⟨step, hstep, hm⟩)
      rw [← placeholder_eq hpackage] at hbody
      exact .cut hnamed hfresh hbody

theorem BodyRuns.transport {owner : String} {steps : List BodyStep} {s : WalkState}
    {trace : List Frame} {out : Outcome (List Field)}
    (h : BodyRuns c owner steps s trace out) :
    (∀ step ∈ steps, ∀ m, step.reference? = some m → c.AgreeFrom c' m) →
      BodyRuns c' owner steps s trace out := by
  match h with
  | .done => exact fun _ => .done
  | .next hstep h =>
      intro hagree
      obtain ⟨hfirst, hrest⟩ := List.forall_mem_cons.1 hagree
      exact .next (StepRuns.transport hstep hfirst) (BodyRuns.transport h hrest)
  | .failed hstep =>
      intro hagree
      exact .failed (StepRuns.transport hstep (List.forall_mem_cons.1 hagree).1)

theorem StepRuns.transport {step : BodyStep} {s : WalkState} {trace : List Frame}
    {out : Outcome (List Field)} (h : StepRuns c step s trace out) :
    (∀ m, step.reference? = some m → c.AgreeFrom c' m) → StepRuns c' step s trace out := by
  match h with
  | .plain hitem hplain => exact fun _ => .plain hitem hplain
  | .back hitem hname hon => exact fun _ => .back hitem hname hon
  | .linked hitem hname hoff h =>
      intro hagree
      have hreference := hagree _ (by rw [BodyStep.reference?, hitem]; exact hname)
      exact .linked hitem hname hoff (VisitRuns.transport h hreference)
  | .embedded hitem h =>
      intro hagree
      have hreference := hagree _ (by rw [BodyStep.reference?, hitem])
      exact .embedded hitem (VisitRuns.transport h hreference)

end

/-- Catalogs that agree on all that a record reaches visit it alike. -/
theorem visit_eq_of_agreeFrom {name : String} (hagree : c.AgreeFrom c' name)
    (hs : s.graph.Indexed) : visit c' c'.size name s = visit c c.size name s := by
  obtain ⟨trace, h⟩ := exists_visitRuns c name hs
  exact visit_of_runs (h.transport hagree) hs

/-! ## Calls -/

namespace Reflector

/-- The reflector with another catalog. -/
def withCatalog (r : Reflector) (c : Catalog) : Reflector := { r with catalog := c }

/-- A catalog that agrees on all that is asked for can take the place of another one. -/
theorem reflect_withCatalog {r : Reflector} {name : String} (hagree : r.catalog.AgreeFrom c name)
    (hs : r.graph.Indexed) :
    (r.withCatalog c).reflect name = ((r.reflect name).1, (r.reflect name).2.withCatalog c) := by
  have hrun : (r.withCatalog c).reflect name = (r.withCatalog c).run (visit c c.size name) := rfl
  have hstate : (r.withCatalog c).toWalkState = r.toWalkState := rfl
  rw [hrun, run, hstate, visit_eq_of_agreeFrom hagree hs, reflect, run]
  cases visit r.catalog r.catalog.size name r.toWalkState <;> rfl

end Reflector

end RecordSchema.Reflection
