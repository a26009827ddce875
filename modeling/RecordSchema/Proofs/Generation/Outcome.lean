import RecordSchema.Generation.Run
import RecordSchema.Proofs.Catalog.Validation
import RecordSchema.Proofs.Reflection.Reach

/-!
# How a run ends

A run fails for one of three reasons, in this order: no resource is configured, the catalog is not
valid, or the record of a resource is not declared.  Reflection adds none of its own, since in a
valid catalog all that a declared record reaches is declared.
-/

namespace RecordSchema.Generation

open Reflection (Reflector)
open Schema (Graph Struct StructId)

variable {c : Catalog} {r : Reflector} {resource : Resource} {config : Generator}

/-- Between two resources a reflector has structs of declared records only. -/
structure Ready (c : Catalog) (r : Reflector) : Prop where
  catalog : r.catalog = c
  indexed : r.graph.Indexed
  declared : ∀ m ∈ r.graph.names, c.contains m = true

theorem ready_ofCatalog (c : Catalog) : Ready c (.ofCatalog c) :=
  ⟨rfl, Graph.indexed_empty, fun _ hm => by cases hm⟩

/-! ## Resources -/

namespace Ready

/-- A record that is not declared is not in the graph either. -/
theorem reflectResource_of_unknown (h : Ready c r) (hunknown : c.contains resource.record = false) :
    reflectResource r resource =
      .error (.resource resource.name (.unknownRecord resource.record)) := by
  have hfind : r.catalog.find? resource.record = none := by
    rw [h.catalog]
    simpa [Catalog.contains] using hunknown
  have hlookup : r.graph.lookup resource.record = none := by
    refine h.indexed.lookup_eq_none_iff.2 fun hmem => ?_
    rw [h.declared _ hmem] at hunknown
    cases hunknown
  have hreflect : r.reflect resource.record = (.error (.unknownRecord resource.record), r) := by
    rw [Reflector.reflect, Reflector.run,
      Reflection.Walk.visit_of_unknown hlookup (.inr hfind)]
  rw [reflectResource, hreflect]

variable (hvalid : c.validate = .ok ()) (hempty : "" ∉ c.names)

include hvalid hempty

theorem reflectResource_of_declared (h : Ready c r)
    (hdeclared : c.contains resource.record = true) :
    ∃ root r', reflectResource r resource = .ok (root, r') ∧ Ready c r' := by
  have hreached : ∀ m, c.Reaches resource.record m → c.contains m = true :=
    fun _ hm => Catalog.contains_of_reaches hvalid hdeclared hm
  obtain ⟨id, hok⟩ := Reflector.exists_reflect_ok h.catalog hempty h.indexed hreached
  have hadds := Reflector.addsReached_of_reflect h.catalog hempty h.indexed hok
  have hcontinues := Reflector.call_continues h.indexed (.reflect resource.record)
  have hcatalog := (Reflector.call_effect h.indexed (.reflect resource.record)).1
  have hreflect : r.reflect resource.record = (.ok id, (r.reflect resource.record).2) :=
    Prod.ext hok rfl
  have hnames := Graph.names_modify (r.reflect resource.record).2.graph id
    (f := fun s => { s with isTopLevel := true }) fun _ => rfl
  rw [reflectResource, hreflect]
  refine ⟨_, _, rfl, hcatalog.trans h.catalog, hcontinues.indexed.modify id fun _ => rfl, ?_⟩
  intro m hm
  replace hm := hnames ▸ hm
  rcases hadds m hm with hm | hm
  · exact h.declared m hm
  · exact hreached m hm

/-- Resources of declared records are all reflected. -/
theorem reflectResources_of_declared (h : Ready c r) {resources : List Resource}
    (hdeclared : ∀ q ∈ resources, c.contains q.record = true) :
    ∃ out, reflectResources r resources = .ok out := by
  induction resources generalizing r with
  | nil => exact ⟨([], r), rfl⟩
  | cons resource rest ih =>
      obtain ⟨hfirst, hrest⟩ := List.forall_mem_cons.1 hdeclared
      obtain ⟨root, r', hok, h'⟩ := h.reflectResource_of_declared hvalid hempty hfirst
      obtain ⟨out, hout⟩ := ih h' hrest
      rw [reflectResources, hok]
      change ∃ out', (reflectResources r' rest >>= fun out => .ok (root :: out.1, out.2)) = .ok out'
      rw [hout]
      exact ⟨_, rfl⟩

/-- The first resource whose record is not declared is reported. -/
theorem reflectResources_of_unknown (h : Ready c r) {front : List Resource}
    (back : List Resource) (hfront : ∀ q ∈ front, c.contains q.record = true)
    (hunknown : c.contains resource.record = false) :
    reflectResources r (front ++ resource :: back) =
      .error (.resource resource.name (.unknownRecord resource.record)) := by
  induction front generalizing r with
  | nil =>
      rw [List.nil_append, reflectResources, h.reflectResource_of_unknown hunknown]
      rfl
  | cons first rest ih =>
      obtain ⟨hfirst, hrest⟩ := List.forall_mem_cons.1 hfront
      obtain ⟨root, r', hok, h'⟩ := h.reflectResource_of_declared hvalid hempty hfirst
      rw [List.cons_append, reflectResources, hok]
      change (reflectResources r' (rest ++ resource :: back) >>= fun out =>
        .ok (root :: out.1, out.2)) = _
      rw [ih h' hrest]
      rfl

end Ready

/-! ## Runs -/

/-- What a run can end with if it fails, and when. -/
inductive Faulty (config : Generator) (c : Catalog) : GenerationError → Prop
  | noResources (empty : config.resources = []) : Faulty config c .noResources
  | schema {e : SchemaError} (configured : config.resources ≠ [])
      (invalid : c.validate = .error e) : Faulty config c (.schema e)
  | resource {front back : List Resource} {q : Resource} (valid : c.validate = .ok ())
      (first : config.resources = front ++ q :: back)
      (declared : ∀ p ∈ front, c.contains p.record = true)
      (unknown : c.contains q.record = false) :
      Faulty config c (.resource q.name (.unknownRecord q.record))

/-- Nothing is wrong with the configuration, the catalog and the records of the resources. -/
structure Sound (config : Generator) (c : Catalog) : Prop where
  configured : config.resources ≠ []
  valid : c.validate = .ok ()
  declared : ∀ q ∈ config.resources, c.contains q.record = true

theorem faulty_or_sound (config : Generator) (c : Catalog) :
    (∃ e, Faulty config c e) ∨ Sound config c := by
  by_cases hempty : config.resources = []
  · exact .inl ⟨_, .noResources hempty⟩
  · cases hvalid : c.validate with
    | error e => exact .inl ⟨_, .schema hempty hvalid⟩
    | ok u =>
        cases hfind : config.resources.find? fun q => !c.contains q.record with
        | none =>
            refine .inr ⟨hempty, hvalid, fun q hq => ?_⟩
            simpa using List.find?_eq_none.1 hfind q hq
        | some q =>
            obtain ⟨hunknown, front, back, hfirst, hdeclared⟩ :=
              List.find?_eq_some_iff_append.1 hfind
            refine .inl ⟨_, .resource hvalid hfirst (fun p hp => ?_) (by simpa using hunknown)⟩
            simpa using hdeclared p hp

namespace Generator

theorem run_eq_error_of_faulty (hempty : "" ∉ c.names) {e : GenerationError}
    (h : Faulty config c e) : config.run c = .error e := by
  cases h with
  | noResources empty =>
      rw [run, empty]
      rfl
  | schema configured invalid =>
      rw [run, if_neg (by simpa using configured), invalid]
      rfl
  | @resource front back q valid first declared unknown =>
      have hresources :=
        (ready_ofCatalog c).reflectResources_of_unknown valid hempty back declared unknown
      rw [run, if_neg (by simp [first]), valid, first, hresources]
      rfl

theorem exists_run_eq_ok_of_sound (hempty : "" ∉ c.names) (h : Sound config c) :
    ∃ out, config.run c = .ok out := by
  obtain ⟨⟨roots, r⟩, hresources⟩ :=
    (ready_ofCatalog c).reflectResources_of_declared h.valid hempty h.declared
  rw [run, if_neg (by simpa using h.configured), h.valid, hresources]
  exact ⟨_, rfl⟩

/-- A run ends with an error just when something is wrong, and the error says what is wrong first:
no resource, an invalid catalog, or the first resource whose record is not declared.  It succeeds
just when nothing is wrong, and no declared record of a valid catalog ever fails to be reflected. -/
theorem run_outcome (config : Generator) (c : Catalog) (hempty : "" ∉ c.names) :
    (∀ e, config.run c = .error e ↔ Faulty config c e) ∧
      ((∃ out, config.run c = .ok out) ↔ Sound config c) ∧
      (c.validate = .ok () → ∀ calls n, c.contains n = true →
        ∃ id, ((Reflector.after c calls).reflect n).1 = .ok id) := by
  refine ⟨fun e => ⟨fun hrun => ?_, run_eq_error_of_faulty hempty⟩, ⟨?_, ?_⟩, ?_⟩
  · rcases faulty_or_sound config c with ⟨e', he'⟩ | hsound
    · cases hrun.symm.trans (run_eq_error_of_faulty hempty he')
      exact he'
    · obtain ⟨out, hrun'⟩ := exists_run_eq_ok_of_sound hempty hsound
      cases hrun.symm.trans hrun'
  · rintro ⟨out, hrun⟩
    rcases faulty_or_sound config c with ⟨e, he⟩ | hsound
    · cases hrun.symm.trans (run_eq_error_of_faulty hempty he)
    · exact hsound
  · exact exists_run_eq_ok_of_sound hempty
  · intro hvalid calls n hn
    exact Reflector.exists_reflect_ok (Reflector.after_catalog c calls) hempty
      (Reflector.after_indexed c calls) fun m hm => Catalog.contains_of_reaches hvalid hn hm

/-- A domain can be reflected, of the resources behind it the first one is reported; the networks
are not valid. -/
theorem run_outcome_memory :
    ("" ∉ Reflector.memoryCatalog.names ∧ "" ∉ Reflector.networkCatalog.names) ∧
      (∃ out, Generator.run { resources := [⟨"domain", "Domain"⟩] } Reflector.memoryCatalog =
        .ok out) ∧
      Generator.run {} Reflector.memoryCatalog =
        .error (.resource "network" (.unknownRecord "Network")) ∧
      Generator.run {} Reflector.networkCatalog =
        .error (.schema (.typeNotFound "Nat" "Forward" "Nat")) ∧
      Generator.run { resources := [] } Reflector.networkCatalog = .error .noResources := by
  have hmemory : "" ∉ Reflector.memoryCatalog.names := by decide
  have hnetwork : "" ∉ Reflector.networkCatalog.names := by decide
  have hvalid : Reflector.memoryCatalog.validate = .ok () := by rfl
  refine ⟨⟨hmemory, hnetwork⟩, ?_, ?_, ?_, ?_⟩
  · exact (run_outcome _ _ hmemory).2.1.2 ⟨by decide, hvalid, by decide⟩
  · have hfirst : ({} : Generator).resources =
        [⟨"domain", "Domain"⟩] ++ ⟨"network", "Network"⟩ :: defaultResources.drop 2 := rfl
    exact ((run_outcome _ _ hmemory).1 _).2
      (.resource hvalid hfirst (by decide) (by decide))
  · exact ((run_outcome _ _ hnetwork).1 _).2 (.schema (by decide) (by rfl))
  · exact ((run_outcome _ _ hnetwork).1 _).2 (.noResources rfl)

end Generator

end RecordSchema.Generation
