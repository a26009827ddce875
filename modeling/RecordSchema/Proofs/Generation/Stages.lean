import RecordSchema.Proofs.Generation.Outcome
import RecordSchema.Proofs.Generation.Placement
import RecordSchema.Proofs.Reflection.Annotation
import RecordSchema.Proofs.Reflection.Links
import RecordSchema.Proofs.Schema.Chain

/-!
# The stages of a run

A run that succeeds has reflected the records of its resources into one graph and marked their
structs.  From then on the graph is only annotated: some structs and fields are left out, paths are
recorded and descriptions put on.
-/

namespace RecordSchema.Generation

open Docs (DocRegistry describeField describeStruct overlayVisits)
open Reflection (Call Reflector)
open Reflection.Reflector (after)
open Schema (Field Graph Struct StructId)

variable {c : Catalog} {config : Generator} {run : Run} {g g' : Graph} {root : ResourceRoot}
  {roots : List ResourceRoot} {resources : List Resource}

/-! ## Annotations -/

/-- A mark changes nothing else. -/
theorem map_excludeField {α : Type} (p : Field → α)
    (hp : ∀ (f : Field) (reason : Option String), p { f with exclusion := reason } = p f)
    (name reason : String) (fields : List Field) :
    (excludeField name reason fields).map p = fields.map p := by
  induction fields with
  | nil => rfl
  | cons f rest ih =>
      rw [excludeField]
      split
      · rw [List.map_cons, hp, List.map_cons]
      · rw [List.map_cons, ih, List.map_cons]

theorem sameUpTo_exclude (g : Graph) (e : Exclusion) : g.SameUpTo .unnoted (exclude g e) := by
  rw [exclude]
  split
  · exact .refl g
  · refine .modify (fun s => ?_) g _
    split
    · rfl
    · rw [Struct.erased, Struct.erased, map_excludeField Field.unnoted fun _ _ => rfl]

theorem sameUpTo_assignRootPaths (g : Graph) (roots : List PathRoot) :
    g.SameUpTo .core (assignRootPaths g roots) :=
  .foldl (fun _ _ => .foldl sameUpTo_placeStruct _ _) _ _

theorem unnoted_describeField (r : DocRegistry) (path : String) (f : Field) :
    (describeField r path f).unnoted = f.unnoted := by
  rw [describeField]
  split <;> rfl

theorem sameUpTo_apply (r : DocRegistry) (g : Graph) (root : StructId) (path : String) :
    g.SameUpTo .unnoted (r.apply g root path) := by
  rw [DocRegistry.apply]
  split
  · exact .refl g
  · refine .foldl ?_ _ _
    rintro g ⟨id, path⟩
    refine .modify (fun s => ?_) g id
    have hfields : Field.unnoted ∘ describeField r path = Field.unnoted :=
      funext (unnoted_describeField r path)
    rw [describeStruct]
    split <;> simp [Struct.erased, List.map_map, hfields]

/-! ## Roots -/

theorem bind_element_eq_of_map_eq {s s' : Option Struct}
    (h : s'.map Struct.element = s.map Struct.element) :
    (s'.bind (·.element)) = s.bind (·.element) := by
  have hjoin (s : Option Struct) : s.bind (·.element) = (s.map Struct.element).join := by
    cases s <;> rfl
  rw [hjoin, hjoin, h]

theorem bind_element_foldl_markTop (g : Graph) (ids : List StructId) (id : StructId) :
    ((ids.foldl Graph.markTop g).get? id).bind (·.element) = (g.get? id).bind (·.element) :=
  bind_element_eq_of_map_eq (Graph.map_get?_foldl_markTop Struct.element (fun _ => rfl) g ids id)

/-- The root of a resource is the struct of its record, and its documents start with the element of
the record if it has one. -/
structure ResourceRoot.In (root : ResourceRoot) (g : Graph) : Prop where
  lookup : g.lookup root.resource.record = some root.id
  xmlRoot : root.xmlRoot = ((g.get? root.id).bind (·.element)).getD root.resource.name

namespace ResourceRoot.In

theorem mono (h : root.In g) (hg : g.Indexed) (hextends : g.Extends g') : root.In g' where
  lookup := hextends.lookup _ _ h.lookup
  xmlRoot := by
    obtain ⟨s, hs, -⟩ := hg.lookup_iff.1 h.lookup
    rw [hextends.get? _ s hs, h.xmlRoot, hs]

theorem sameUpTo {erase : Field → Field} (h : root.In g) (hsame : g.SameUpTo erase g') :
    root.In g' where
  lookup := (hsame.lookup_eq _).trans h.lookup
  xmlRoot := by
    have hmap := hsame.map_get? Struct.element (fun _ _ heq => (congrArg Struct.element heq :))
    rw [h.xmlRoot, bind_element_eq_of_map_eq (hmap root.id)]

end ResourceRoot.In

/-! ## Resources -/

/-- Later calls only add structs. -/
theorem after_append_extends (c : Catalog) (calls later : List Call) :
    (after c calls).graph.Extends (after c (calls ++ later)).graph := by
  have hindexed := Reflector.after_indexed c
  have hprefix : (after c calls).graph.structs <+: (after c (calls ++ later)).graph.structs := by
    induction later using List.reverseRecOn with
    | nil => simp
    | append_singleton later k ih =>
        rw [← List.append_assoc, Reflector.after_concat]
        exact ih.trans (Reflector.call_continues (hindexed (calls ++ later)) k).structs
  exact (hindexed calls).extends (hindexed (calls ++ later)) hprefix

/-- The calls that reflect the records of roots. -/
def rootCalls (roots : List ResourceRoot) : List Call :=
  roots.map fun r => .reflect r.resource.record

/-- A resource that is reflected after some calls, with some structs marked by then. -/
theorem reflectResource_of_ok {earlier : List Call} {ids : List StructId} {resource : Resource}
    {r : Reflector} (hids : ∀ id ∈ ids, id < (after c earlier).graph.size)
    (h : reflectResource (ids.foldl Reflector.markTop (after c earlier)) resource = .ok (root, r)) :
    root.resource = resource ∧
      r = (ids ++ [root.id]).foldl Reflector.markTop (after c (earlier ++ rootCalls [root])) ∧
      root.In (after c (earlier ++ rootCalls [root])).graph := by
  have hindexed := Reflector.after_indexed c earlier
  rw [reflectResource, Reflector.reflect_foldl_markTop hindexed hids] at h
  cases hreflect : ((after c earlier).reflect resource.record).1 with
  | error e =>
      rw [hreflect] at h
      cases h
  | ok id =>
      have hlookup := Reflector.lookup_of_reflect hindexed hreflect
      have hafter : ((after c earlier).reflect resource.record).2 =
          after c (earlier ++ [.reflect resource.record]) :=
        (Reflector.after_concat c earlier (.reflect resource.record)).symm
      rw [hreflect, hafter] at h
      rw [hafter] at hlookup
      cases h
      refine ⟨rfl, ?_, hlookup, congrArg (fun x : Option String => x.getD resource.name) ?_⟩
      · rw [List.foldl_concat]
        rfl
      · -- what the root of the documents is called does not depend on marks
        have hmarked := bind_element_foldl_markTop
          (after c (earlier ++ [.reflect resource.record])).graph (ids ++ [id]) id
        rwa [← Reflector.graph_foldl_markTop, List.foldl_concat] at hmarked

/-- What is known of resources that are reflected after some calls, with some structs marked by
then. -/
theorem reflectResources_of_ok {earlier : List Call} {ids : List StructId} {r : Reflector}
    (hids : ∀ id ∈ ids, id < (after c earlier).graph.size)
    (h : reflectResources (ids.foldl Reflector.markTop (after c earlier)) resources =
      .ok (roots, r)) :
    roots.map (·.resource) = resources ∧
      r = (ids ++ roots.map (·.id)).foldl Reflector.markTop
        (after c (earlier ++ rootCalls roots)) ∧
      ∀ root ∈ roots, root.In (after c (earlier ++ rootCalls roots)).graph := by
  induction resources generalizing earlier ids roots with
  | nil =>
      cases h
      simp [rootCalls]
  | cons resource rest ih =>
      rw [reflectResources] at h
      cases hfirst : reflectResource (ids.foldl Reflector.markTop (after c earlier)) resource with
      | error e =>
          rw [hfirst] at h
          cases h
      | ok first =>
          obtain ⟨root, r₁⟩ := first
          obtain ⟨rfl, rfl, hroot⟩ := reflectResource_of_ok hids hfirst
          rw [hfirst] at h
          replace h : (reflectResources ((ids ++ [root.id]).foldl Reflector.markTop
            (after c (earlier ++ rootCalls [root]))) rest >>= fun out =>
              .ok (root :: out.1, out.2)) = .ok (roots, r) := h
          cases hrest : reflectResources ((ids ++ [root.id]).foldl Reflector.markTop
              (after c (earlier ++ rootCalls [root]))) rest with
          | error e =>
              rw [hrest] at h
              cases h
          | ok out =>
              rw [hrest] at h
              cases h
              have hextends := after_append_extends c earlier (rootCalls [root])
              have hindexed := Reflector.after_indexed c (earlier ++ rootCalls [root])
              have hids' : ∀ id ∈ ids ++ [root.id],
                  id < (after c (earlier ++ rootCalls [root])).graph.size := by
                refine List.forall_mem_append.2 ⟨fun id hid => ?_, fun id hid => ?_⟩
                · exact Nat.lt_of_lt_of_le (hids id hid) hextends.structs.length_le
                · rw [List.mem_singleton.1 hid]
                  exact hindexed.lookup_lt hroot.lookup
              obtain ⟨hrest, hout, hroots⟩ := ih hids' hrest
              have hlater := after_append_extends c (earlier ++ rootCalls [root])
                (rootCalls out.1)
              rw [List.append_assoc] at hout hroots hlater
              refine ⟨congrArg _ hrest, ?_, List.forall_mem_cons.2 ⟨?_, hroots⟩⟩
              · rw [hout, List.append_assoc]
                rfl
              · exact hroot.mono hindexed hlater

/-- The graph of the resources: their records are reflected and the structs are marked. -/
def resourceGraph (c : Catalog) (roots : List ResourceRoot) : Graph :=
  (roots.map (·.id)).foldl Graph.markTop (after c (rootCalls roots)).graph

theorem ResourceRoot.In.resourceGraph (h : root.In (after c (rootCalls roots)).graph) :
    root.In (resourceGraph c roots) where
  lookup := (Graph.lookup_foldl_markTop ..).trans h.lookup
  xmlRoot := by rw [h.xmlRoot, Generation.resourceGraph, bind_element_foldl_markTop]

theorem reflectResources_ofCatalog {r : Reflector}
    (h : reflectResources (.ofCatalog c) resources = .ok (roots, r)) :
    roots.map (·.resource) = resources ∧ r.graph = resourceGraph c roots ∧
      ∀ root ∈ roots, root.In (resourceGraph c roots) := by
  have hstart : reflectResources (([] : List StructId).foldl Reflector.markTop (after c []))
      resources = .ok (roots, r) := h
  obtain ⟨hmap, rfl, hroots⟩ := reflectResources_of_ok (List.forall_mem_nil _) hstart
  exact ⟨hmap, Reflector.graph_foldl_markTop ..,
    fun root hroot => (hroots root hroot).resourceGraph⟩

theorem resourceGraph_indexed (c : Catalog) (roots : List ResourceRoot) :
    (resourceGraph c roots).Indexed :=
  Graph.foldl_markTop_induction (fun _ id h => h.markTop id)
    (Reflector.after_indexed c (rootCalls roots)) _

theorem exists_linkOrder_resourceGraph (c : Catalog) (roots : List ResourceRoot) :
    ∃ order, (resourceGraph c roots).LinkOrder order := by
  obtain ⟨order, horder⟩ := Reflector.after_exists_linkOrder c (rootCalls roots)
  exact ⟨order, horder.foldl_markTop _⟩

/-- Just the structs of the resources are marked. -/
theorem isTopLevel_resourceGraph {id : StructId} {s : Struct}
    (hs : (resourceGraph c roots).get? id = some s) :
    s.isTopLevel = true ↔ id ∈ roots.map (·.id) := by
  rw [resourceGraph, Graph.get?_foldl_markTop, Option.map_eq_some_iff] at hs
  obtain ⟨t, ht, rfl⟩ := hs
  obtain ⟨frames, h⟩ := Reflector.after_grown (c := c) (fun _ _ => trivial) (rootCalls roots)
    fun _ _ => trivial
  have hplain := h.isTopLevel_eq_false (List.mem_of_getElem? ht)
  split
  · rename_i hmem
    exact iff_of_true rfl hmem
  · rename_i hmem
    exact iff_of_false (by simp [hplain]) hmem

/-- Nothing is put on fields yet. -/
theorem annotations_resourceGraph {id : StructId} {f : Field}
    (hf : f ∈ (resourceGraph c roots).fieldsAt id) : f.annotations = {} := by
  rw [resourceGraph, Graph.fieldsAt_foldl_markTop] at hf
  obtain ⟨t, ht, hmem⟩ := Graph.mem_fieldsAt_iff.1 hf
  obtain ⟨frames, h⟩ := Reflector.after_grown (c := c) (fun _ _ => trivial) (rootCalls roots)
    fun _ _ => trivial
  exact h.annotations_eq_empty t (List.mem_of_getElem? ht) f hmem

theorem path_resourceGraph {id : StructId} {f : Field}
    (hf : f ∈ (resourceGraph c roots).fieldsAt id) : f.path = "" :=
  congrArg Schema.Annotations.path (annotations_resourceGraph hf)

/-- No struct is left out yet. -/
theorem exclusion_resourceGraph {id : StructId} {s : Struct}
    (hs : (resourceGraph c roots).get? id = some s) : s.exclusion = none := by
  have hmap := Graph.map_get?_foldl_markTop Struct.exclusion (fun _ => rfl)
    (after c (rootCalls roots)).graph (roots.map (·.id)) id
  rw [← resourceGraph, hs] at hmap
  obtain ⟨t, ht, heq⟩ := Option.map_eq_some_iff.1 hmap.symm
  obtain ⟨frames, h⟩ := Reflector.after_grown (c := c) (fun _ _ => trivial) (rootCalls roots)
    fun _ _ => trivial
  exact heq.symm.trans (h.exclusion_eq_none (List.mem_of_getElem? ht))

/-- The graph of the resources with what is configured to be left out. -/
def excludedGraph (config : Generator) (c : Catalog) (roots : List ResourceRoot) : Graph :=
  config.exclusions.foldl exclude (resourceGraph c roots)

/-- The graph of the resources with the paths, too. -/
def placedGraph (config : Generator) (c : Catalog) (roots : List ResourceRoot) : Graph :=
  assignRootPaths (excludedGraph config c roots) (roots.map ResourceRoot.pathRoot)

theorem sameUpTo_excludedGraph (config : Generator) (c : Catalog) (roots : List ResourceRoot) :
    (resourceGraph c roots).SameUpTo .unnoted (excludedGraph config c roots) :=
  .foldl sameUpTo_exclude _ _

theorem sameUpTo_placedGraph (config : Generator) (c : Catalog) (roots : List ResourceRoot) :
    (excludedGraph config c roots).SameUpTo .core (placedGraph config c roots) :=
  sameUpTo_assignRootPaths ..

/-- What a run that succeeds consists of. -/
structure Run.Stages (config : Generator) (c : Catalog) (run : Run) : Prop where
  resources : run.roots.map (·.resource) = config.resources
  roots : ∀ root ∈ run.roots, root.In run.graph
  described : (placedGraph config c run.roots).SameUpTo .unnoted run.graph
  structs : run.structs = run.graph.reached (run.roots.map (·.id))
  totals : run.totals = .ofStructs (run.structs.filterMap run.graph.get?)

/-- What has been reflected stays as it is. -/
theorem sameUpTo_of_described (h : (placedGraph config c roots).SameUpTo .unnoted g) :
    (resourceGraph c roots).SameUpTo .core g :=
  ((sameUpTo_excludedGraph config c roots).core_of_unnoted.trans
    (sameUpTo_placedGraph config c roots)).trans h.core_of_unnoted

/-! ## A run in two parts -/

/-- The roots of resources and the graph that is reflected for them; a run that fails does so
here. -/
def reflected (resources : List Resource) (c : Catalog) :
    Except GenerationError (List ResourceRoot × Graph) := do
  if resources.isEmpty then throw .noResources
  c.validate.mapError .schema
  let (roots, r) ← reflectResources (.ofCatalog c) resources
  return (roots, r.graph)

theorem reflected_of_ok (h : reflected resources c = .ok (roots, g)) :
    roots.map (·.resource) = resources ∧ g = resourceGraph c roots ∧
      ∀ root ∈ roots, root.In (resourceGraph c roots) := by
  rw [reflected] at h
  split at h
  · cases h
  cases hvalid : c.validate with
  | error e =>
      rw [hvalid] at h
      cases h
  | ok u =>
      rw [hvalid] at h
      cases hresources : reflectResources (.ofCatalog c) resources with
      | error e =>
          rw [hresources] at h
          cases h
      | ok out =>
          rw [hresources] at h
          cases h
          exact reflectResources_ofCatalog hresources

namespace Generator

/-- The graph with what the configuration puts on it. -/
def annotate (config : Generator) (roots : List ResourceRoot) (g : Graph) : Graph :=
  roots.foldl (fun g r => config.docs.apply g r.id r.resource.name)
    (assignRootPaths (config.exclusions.foldl exclude g) (roots.map ResourceRoot.pathRoot))

/-- What is reported about an annotated graph. -/
def report (config : Generator) (roots : List ResourceRoot) (graph : Graph) : Run where
  graph := graph
  roots := roots
  structs := graph.reached (roots.map (·.id))
  totals := .ofStructs ((graph.reached (roots.map (·.id))).filterMap graph.get?)
  batches := buildBatches
    (roots.flatMap fun r => collectFields graph r.pathRoot (some config.docs)) config.batchSize

/-- A run reflects and then annotates and reports; only what it reflects depends on the catalog. -/
theorem run_eq (config : Generator) (c : Catalog) :
    config.run c = (reflected config.resources c).map fun (roots, g) =>
      config.report roots (config.annotate roots g) := by
  rw [run, reflected]
  split
  · rfl
  cases c.validate with
  | error e => rfl
  | ok u =>
      cases reflectResources (.ofCatalog c) config.resources with
      | error e => rfl
      | ok out => rfl

/-- A run that succeeds is the report on the annotated graph of its resources. -/
theorem eq_report_of_run (h : config.run c = .ok run) :
    run.roots.map (·.resource) = config.resources ∧
      (∀ root ∈ run.roots, root.In (resourceGraph c run.roots)) ∧
      run = config.report run.roots (config.annotate run.roots (resourceGraph c run.roots)) := by
  rw [run_eq] at h
  cases hreflected : reflected config.resources c with
  | error e =>
      rw [hreflected] at h
      cases h
  | ok out =>
      obtain ⟨roots, g⟩ := out
      obtain ⟨hmap, rfl, hroots⟩ := reflected_of_ok hreflected
      rw [hreflected] at h
      obtain rfl := Except.ok.inj h
      exact ⟨hmap, hroots, rfl⟩

/-- The stages of a run. -/
theorem run_stages (h : config.run c = .ok run) : run.Stages config c := by
  obtain ⟨hmap, hroots, hreport⟩ := eq_report_of_run h
  generalize run.roots = roots at hmap hroots hreport
  subst hreport
  have hdescribed : (placedGraph config c roots).SameUpTo .unnoted
      (config.annotate roots (resourceGraph c roots)) := by
    refine .foldl ?_ _ _
    intro g root
    exact sameUpTo_apply ..
  have hsame := sameUpTo_of_described hdescribed
  exact ⟨hmap, fun root hroot => (hroots root hroot).sameUpTo hsame, hdescribed, rfl, rfl⟩

end Generator

end RecordSchema.Generation
