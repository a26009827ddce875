import RecordSchema.Catalog.Build
import RecordSchema.Proofs.Generation.Stages
import RecordSchema.Proofs.Reflection.Locality

/-!
# What a run asks of the catalog

After validation a run asks the catalog only for what the records of its resources reach.  Records
that are not reached can come and go, and the order of the records does not matter.
-/

namespace RecordSchema.Generation

open Reflection (Reflector mem_of_reaches)
open Reflection.Reflector (memoryCatalog)
open Schema (Graph)

variable {c c' : Catalog} {r : Reflector} {resource : Resource} {resources : List Resource}
  {config : Generator}

/-! ## Resources -/

theorem reflectResource_withCatalog (hagree : r.catalog.AgreeFrom c resource.record)
    (hs : r.graph.Indexed) :
    reflectResource (r.withCatalog c) resource =
      (reflectResource r resource).map fun (root, r) => (root, r.withCatalog c) := by
  rw [reflectResource, Reflector.reflect_withCatalog hagree hs, reflectResource]
  rcases r.reflect resource.record with ⟨out, r'⟩
  cases out <;> rfl

/-- A resource that is reflected leaves a reflector of the same catalog. -/
theorem of_reflectResource {root : ResourceRoot} {r' : Reflector} (hs : r.graph.Indexed)
    (h : reflectResource r resource = .ok (root, r')) :
    r'.catalog = r.catalog ∧ r'.graph.Indexed := by
  have hcatalog := (Reflector.call_effect hs (.reflect resource.record)).1
  have hindexed := (Reflector.call_continues hs (.reflect resource.record)).indexed
  rw [Reflector.call] at hcatalog hindexed
  rw [reflectResource] at h
  rcases hreflect : r.reflect resource.record with ⟨out, r₁⟩
  rw [hreflect] at h hcatalog hindexed
  cases out with
  | error e => cases h
  | ok id =>
      cases h
      exact ⟨hcatalog, hindexed.modify id fun _ => rfl⟩

theorem reflectResources_withCatalog (hagree : ∀ q ∈ resources, r.catalog.AgreeFrom c q.record)
    (hs : r.graph.Indexed) :
    reflectResources (r.withCatalog c) resources =
      (reflectResources r resources).map fun (roots, r) => (roots, r.withCatalog c) := by
  induction resources generalizing r with
  | nil => rfl
  | cons resource rest ih =>
      obtain ⟨hfirst, hrest⟩ := List.forall_mem_cons.1 hagree
      rw [reflectResources, reflectResource_withCatalog hfirst hs, reflectResources]
      cases hresource : reflectResource r resource with
      | error e => rfl
      | ok out =>
          obtain ⟨root, r'⟩ := out
          obtain ⟨hcatalog, hindexed⟩ := of_reflectResource hs hresource
          change (reflectResources (r'.withCatalog c) rest >>= fun out =>
              .ok (root :: out.1, out.2)) =
            Except.map _ (reflectResources r' rest >>= fun out => .ok (root :: out.1, out.2))
          rw [ih (hcatalog.symm ▸ hrest) hindexed]
          cases reflectResources r' rest <;> rfl

/-- Valid catalogs that agree on all that the resources reach reflect the same roots and the same
graph. -/
theorem reflected_eq_of_agreeFrom (hvalid : c.validate = .ok ()) (hvalid' : c'.validate = .ok ())
    (hagree : ∀ q ∈ resources, c.AgreeFrom c' q.record) :
    reflected resources c' = reflected resources c := by
  have hreflect := reflectResources_withCatalog (r := .ofCatalog c) hagree Graph.indexed_empty
  replace hreflect : reflectResources (.ofCatalog c') resources =
    (reflectResources (.ofCatalog c) resources).map fun (roots, r) =>
      (roots, r.withCatalog c') := hreflect
  rw [reflected, reflected, hvalid, hvalid', hreflect]
  split
  · rfl
  · cases reflectResources (.ofCatalog c) resources <;> rfl

/-! ## Runs -/

namespace Generator

theorem run_eq_of_agreeFrom (hvalid : c.validate = .ok ()) (hvalid' : c'.validate = .ok ())
    (hagree : ∀ q ∈ config.resources, c.AgreeFrom c' q.record) :
    config.run c' = config.run c := by
  rw [run_eq, run_eq, reflected_eq_of_agreeFrom hvalid hvalid' hagree]

/-- A run depends on the package and on the declarations that the records of the resources reach.
So it gives the same result if the records are rearranged or records that are not reached are added
or taken away. -/
theorem run_eq_of_reached (config : Generator) (c c' : Catalog) (hpackage : c'.package = c.package)
    (hvalid : c.validate = .ok ()) :
    (c'.validate = .ok () →
      (∀ q ∈ config.resources, ∀ m, c.Reaches q.record m → c'.find? m = c.find? m) →
      config.run c' = config.run c) ∧
    (c'.records.Perm c.records → config.run c' = config.run c) ∧
    (c'.validate = .ok () → c.records ⊆ c'.records →
      (∀ r ∈ c'.records, r ∉ c.records → ∀ q ∈ config.resources, ¬c'.Reaches q.record r.name) →
      config.run c' = config.run c) := by
  refine ⟨fun hvalid' hagree => ?_, fun hperm => ?_, fun hvalid' hsub hunreached => ?_⟩
  · exact run_eq_of_agreeFrom hvalid hvalid' fun q hq => ⟨hpackage, hagree q hq⟩
  · exact run_eq_of_agreeFrom hvalid (Catalog.validate_of_perm hperm hvalid) fun q _ =>
      Catalog.agreeFrom_of_perm hpackage hperm q.record
  · exact run_eq_of_agreeFrom hvalid hvalid' fun q hq =>
      Catalog.agreeFrom_of_subset hpackage hsub fun r hr hnew => hunreached r hr hnew q hq

/-- A domain with its memory is the same whatever stands before it, between the two or behind. -/
theorem run_eq_of_reached_memory :
    let volume : RecordDecl :=
      { name := "Volume", fields := [.inAttribute "Capacity" .string "capacity"] }
    let swapped : Catalog := ⟨"domain", memoryCatalog.records.reverse, by decide⟩
    let larger : Catalog := .ofRecords "domain" (memoryCatalog.records ++ [volume])
    let mixed : Catalog := .ofRecords "domain" (volume :: memoryCatalog.records.reverse)
    let config : Generator := { resources := [⟨"domain", "Domain"⟩] }
    (memoryCatalog.validate = .ok () ∧ larger.validate = .ok () ∧ mixed.validate = .ok ()) ∧
      config.run swapped = config.run memoryCatalog ∧
      config.run larger = config.run memoryCatalog ∧
      config.run mixed = config.run memoryCatalog := by
  intro volume swapped larger mixed config
  have hvalid : memoryCatalog.validate = .ok () := by rfl
  have hlarger : larger.validate = .ok () := by rfl
  have hmixed : mixed.validate = .ok () := by rfl
  refine ⟨⟨hvalid, hlarger, hmixed⟩, ?_, ?_, ?_⟩
  · exact (run_eq_of_reached config memoryCatalog swapped rfl hvalid).2.1 (List.reverse_perm _)
  · refine (run_eq_of_reached config memoryCatalog larger rfl hvalid).2.2 hlarger
      (List.subset_append_left ..) fun r hr hnew q hq hreaches => ?_
    -- the volume is new, and domains do not lead to it
    obtain rfl := List.mem_singleton.1 ((List.mem_append.1 hr).resolve_left hnew)
    rw [List.mem_singleton.1 hq] at hreaches
    have hmem := mem_of_reaches ["Domain", "Memory"] (by decide +kernel) hreaches (by simp)
    revert hmem
    decide
  · refine (run_eq_of_reached config memoryCatalog mixed rfl hvalid).1 hmixed fun q hq m hm => ?_
    rw [List.mem_singleton.1 hq] at hm
    have hmem := mem_of_reaches ["Domain", "Memory"] (by decide +kernel) hm (by simp)
    rcases List.mem_cons.1 hmem with rfl | hmem
    · rfl
    · rw [List.mem_singleton.1 hmem]
      rfl

end Generator

end RecordSchema.Generation
