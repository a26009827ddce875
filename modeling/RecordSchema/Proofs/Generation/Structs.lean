import Mathlib.Algebra.Ring.Nat
import Mathlib.Data.Finset.Card
import RecordSchema.Proofs.Generation.Coverage
import RecordSchema.Proofs.Generation.Stages
import RecordSchema.Proofs.Schema.Traversal

/-!
# The structs of the output

A run lists the structs its roots lead to, in the order in which an unfolding from the roots meets
them first, and counts what is in the list.
-/

namespace RecordSchema.Generation

open Reflection.Reflector (after routeCatalog)
open Schema (Field Graph Struct StructId)

variable {c : Catalog} {config : Generator} {run : Run} {g : Graph} {ids : List StructId}

/-! ## Counting -/

theorem flatMap_fields_filterMap_get? (g : Graph) (ids : List StructId) :
    (ids.filterMap g.get?).flatMap Struct.fields = ids.flatMap g.fieldsAt := by
  induction ids with
  | nil => rfl
  | cons id rest ih =>
      rw [List.flatMap_cons, ← ih]
      cases hs : g.get? id with
      | none =>
          rw [List.filterMap_cons_none hs, Graph.fieldsAt, hs]
          rfl
      | some s => rw [List.filterMap_cons_some hs, List.flatMap_cons, Graph.fieldsAt_of_get? hs]

theorem countP_filterMap_get? (g : Graph) (p : Struct → Bool) (ids : List StructId) :
    (ids.filterMap g.get?).countP p = ids.countP fun id => (g.get? id).any p := by
  rw [List.countP_filterMap]
  refine List.countP_congr fun id _ => ?_
  cases g.get? id <;> simp

theorem length_filterMap_get? (h : ∀ id ∈ ids, id < g.size) :
    (ids.filterMap g.get?).length = ids.length := by
  induction ids with
  | nil => rfl
  | cons id rest ih =>
      obtain ⟨hid, hrest⟩ := List.forall_mem_cons.1 h
      obtain ⟨s, hs⟩ := Graph.get?_eq_some_iff_lt.2 hid
      rw [List.filterMap_cons_some hs, List.length_cons, ih hrest, List.length_cons]

/-- What there is to count in a run. -/
def Run.counts (run : Run) : Totals where
  structs := run.structs.length
  topLevel := (run.roots.map (·.id)).toFinset.card
  fields := (run.structs.map fun id => (run.graph.fieldsAt id).length).sum
  cycles := (run.structs.map fun id => (run.graph.fieldsAt id).countP Field.isCycle).sum
  excluded := run.structs.countP fun id => (run.graph.get? id).any Struct.isExcluded

/-! ## Listing -/

/-- The structs of a run are those its roots lead to, listed and counted. -/
structure Run.ListsStructs (config : Generator) (run : Run) : Prop where
  /-- There is one root for each resource. -/
  resources : run.roots.map (·.resource) = config.resources
  /-- The root of a resource is the struct of its record. -/
  lookup : ∀ root ∈ run.roots, run.graph.lookup root.resource.record = some root.id
  /-- Unfolding from the roots comes to an end. -/
  unfolds : ∃ all, run.graph.Unfolds (run.roots.map (·.id)) all
  /-- The structs are listed in the order in which they are first met in unfolding. -/
  order : ∀ all, run.graph.Unfolds (run.roots.map (·.id)) all → run.structs = all.eraseDups
  nodup : run.structs.Nodup
  /-- Chains of nested links lead from the roots to just the listed structs. -/
  reached : ∀ id, id ∈ run.structs ↔
    ∃ root ∈ run.roots, ∃ fields, run.graph.Chain root.id fields id
  valid : ∀ id ∈ run.structs, id < run.graph.size
  /-- No link leads out of the graph. -/
  links : ∀ s t, run.graph.LinksTo s t → t < run.graph.size
  closed : ∀ id ∈ run.structs, ∀ f ∈ run.graph.fieldsAt id, ∀ t,
    f.nestedTarget? = some t → t ∈ run.structs
  /-- Just the structs of the roots are marked. -/
  marked : ∀ id s, run.graph.get? id = some s → (s.isTopLevel = true ↔ id ∈ run.roots.map (·.id))
  totals : run.totals = run.counts

namespace Run.Stages

variable (h : run.Stages config c)

include h

theorem exists_linkOrder : ∃ order, run.graph.LinkOrder order := by
  obtain ⟨order, horder⟩ := exists_linkOrder_resourceGraph c run.roots
  exact ⟨order, (sameUpTo_of_described h.described).linkOrder horder⟩

theorem indexed : run.graph.Indexed :=
  (sameUpTo_of_described h.described).indexed (resourceGraph_indexed c run.roots)

theorem isTopLevel_iff {id : StructId} {s : Struct} (hs : run.graph.get? id = some s) :
    s.isTopLevel = true ↔ id ∈ run.roots.map (·.id) := by
  obtain ⟨t, ht, heq⟩ := (sameUpTo_of_described h.described).exists_get? hs
  have htop : s.isTopLevel = t.isTopLevel := (congrArg Struct.isTopLevel heq :)
  rw [htop, isTopLevel_resourceGraph ht]

theorem root_lt_size {root : ResourceRoot} (hroot : root ∈ run.roots) :
    root.id < run.graph.size := h.indexed.lookup_lt (h.roots root hroot).lookup

theorem mem_structs_iff {id : StructId} :
    id ∈ run.structs ↔ ∃ root ∈ run.roots, ∃ fields, run.graph.Chain root.id fields id := by
  obtain ⟨order, horder⟩ := h.exists_linkOrder
  rw [h.structs, horder.mem_reached_iff]
  simp

theorem nodup_structs : run.structs.Nodup := by
  rw [h.structs]
  exact Graph.nodup_reached ..

theorem lt_size {id : StructId} (hid : id ∈ run.structs) : id < run.graph.size := by
  obtain ⟨order, horder⟩ := h.exists_linkOrder
  obtain ⟨root, hroot, fields, hchain⟩ := h.mem_structs_iff.1 hid
  exact horder.lt_size_of_chain hchain (h.root_lt_size hroot)

theorem target_mem_structs {id t : StructId} (hid : id ∈ run.structs) {f : Field}
    (hf : f ∈ run.graph.fieldsAt id) (ht : f.nestedTarget? = some t) : t ∈ run.structs := by
  obtain ⟨root, hroot, fields, hchain⟩ := h.mem_structs_iff.1 hid
  exact h.mem_structs_iff.2 ⟨root, hroot, fields ++ [f], hchain.concat hf ht⟩

theorem countP_isTopLevel :
    (run.structs.countP fun id => (run.graph.get? id).any Struct.isTopLevel) =
      (run.roots.map (·.id)).toFinset.card := by
  rw [List.countP_eq_length_filter, ← List.toFinset_card_of_nodup (h.nodup_structs.filter _)]
  congr 1
  ext id
  rw [List.mem_toFinset, List.mem_toFinset, List.mem_filter, Option.any_eq_true]
  constructor
  · rintro ⟨-, s, hs, htop⟩
    exact (h.isTopLevel_iff hs).1 htop
  · intro hid
    obtain ⟨root, hroot, rfl⟩ := List.mem_map.1 hid
    obtain ⟨s, hs⟩ := Graph.get?_eq_some_iff_lt.2 (h.root_lt_size hroot)
    exact ⟨h.mem_structs_iff.2 ⟨root, hroot, [], .nil _⟩, s, hs, (h.isTopLevel_iff hs).2 hid⟩

theorem totals_eq : run.totals = run.counts := by
  rw [h.totals, Totals.ofStructs, Run.counts, flatMap_fields_filterMap_get?,
    length_filterMap_get? fun id hid => h.lt_size hid, countP_filterMap_get?,
    countP_filterMap_get?, List.length_flatMap, List.countP_flatMap, h.countP_isTopLevel]
  rfl

/-- But for annotations the fields are those that were reflected. -/
theorem map_core_fieldsAt (id : StructId) : (run.graph.fieldsAt id).map Field.core =
    ((after c (rootCalls run.roots)).graph.fieldsAt id).map Field.core := by
  rw [(sameUpTo_of_described h.described).map_fieldsAt, resourceGraph,
    Graph.fieldsAt_foldl_markTop]

theorem opened_eq (id : StructId) :
    run.graph.opened id = (after c (rootCalls run.roots)).graph.opened id := by
  rw [Graph.opened, (sameUpTo_of_described h.described).filterMap_fieldsAt _ fun _ => rfl,
    resourceGraph, Graph.fieldsAt_foldl_markTop, Graph.opened]

/-- What depends neither on annotations nor on marks is as it was reflected. -/
theorem map_get?_eq {α : Type} (p : Struct → α) (htop : ∀ s, p s.atTop = p s)
    (hp : ∀ s s' : Struct, s'.erased .core = s.erased .core → p s' = p s) (id : StructId) :
    (run.graph.get? id).map p = ((after c (rootCalls run.roots)).graph.get? id).map p := by
  rw [(sameUpTo_of_described h.described).map_get? p hp, resourceGraph,
    Graph.map_get?_foldl_markTop p htop]

theorem lookup_eq (name : String) :
    run.graph.lookup name = (after c (rootCalls run.roots)).graph.lookup name := by
  rw [(sameUpTo_of_described h.described).lookup_eq, resourceGraph, Graph.lookup_foldl_markTop]

theorem rootCalls_eq :
    rootCalls run.roots = config.resources.map fun q => .reflect q.record := by
  rw [← h.resources, List.map_map]
  rfl

theorem map_some_id :
    (run.roots.map (·.id)).map some = config.resources.map fun q => run.graph.lookup q.record := by
  rw [← h.resources, List.map_map, List.map_map]
  exact List.map_congr_left fun root hroot => (h.roots root hroot).lookup.symm

end Run.Stages

namespace Generator

/-- A run that succeeds lists the structs that its roots lead to, each once and in the order in
which unfolding meets them, and its totals count what is in the list. -/
theorem run_listsStructs (h : config.run c = .ok run) : run.ListsStructs config := by
  have hstages := run_stages h
  obtain ⟨order, horder⟩ := hstages.exists_linkOrder
  exact {
    resources := hstages.resources
    lookup := fun root hroot => (hstages.roots root hroot).lookup
    unfolds := horder.exists_unfolds _
    order := fun all hall => hstages.structs.trans (hall.reached_eq horder)
    nodup := hstages.nodup_structs
    reached := fun _ => hstages.mem_structs_iff
    valid := fun _ => hstages.lt_size
    links := fun _ _ => horder.target_lt_size
    closed := fun _ hid _ hf _ => hstages.target_mem_structs hid hf
    marked := fun _ _ => hstages.isTopLevel_iff
    totals := hstages.totals_eq }

/-- Domains and networks, the networks under two names. -/
def routeGenerator : Generator where
  resources := [⟨"domain", "Domain"⟩, ⟨"network", "Network"⟩, ⟨"lan", "Network"⟩]

theorem exists_routeRun :
    ∃ run, routeGenerator.run routeCatalog = .ok run ∧ run.roots.map (·.id) = [0, 1, 1] := by
  have hsound : Sound routeGenerator routeCatalog := ⟨by decide, by rfl, by decide⟩
  obtain ⟨run, hrun⟩ := exists_run_eq_ok_of_sound (by decide) hsound
  have hstages := run_stages hrun
  have hids := hstages.map_some_id
  simp only [hstages.lookup_eq, hstages.rootCalls_eq] at hids
  refine ⟨run, hrun, List.map_injective_iff.2 (Option.some_injective _) (hids.trans ?_)⟩
  decide +kernel

/-- The network is met below the domain, and the route below the network. -/
theorem run_listsStructs_route :
    ∃ run, routeGenerator.run routeCatalog = .ok run ∧ run.roots.map (·.id) = [0, 1, 1] ∧
      run.structs = [0, 1, 2] ∧ run.totals.structs = 3 ∧ run.totals.topLevel = 2 := by
  obtain ⟨run, hrun, hroots⟩ := exists_routeRun
  have hlists := run_listsStructs hrun
  have hstages := run_stages hrun
  have hcalls := hstages.rootCalls_eq
  have hdomain : run.graph.opened 0 = [1, 2, 2] := by
    rw [hstages.opened_eq, hcalls]
    decide +kernel
  have hnetwork : run.graph.opened 1 = [2] := by
    rw [hstages.opened_eq, hcalls]
    decide +kernel
  have hroute : run.graph.opened 2 = [] := by
    rw [hstages.opened_eq, hcalls]
    decide +kernel
  have hroutes {ids all : List StructId} (h : run.graph.Unfolds ids all) :
      run.graph.Unfolds (2 :: ids) (2 :: ([] ++ all)) := .cons (by rw [hroute]; exact .nil) h
  have hnetworks {ids all : List StructId} (h : run.graph.Unfolds ids all) :
      run.graph.Unfolds (1 :: ids) (1 :: ([2] ++ all)) :=
    .cons (by rw [hnetwork]; exact hroutes .nil) h
  have hall : run.graph.Unfolds [0, 1, 1] (0 :: ([1, 2, 2, 2] ++ [1, 2, 1, 2])) :=
    .cons (by rw [hdomain]; exact hnetworks (hroutes (hroutes .nil))) (hnetworks (hnetworks .nil))
  have hstructs : run.structs = [0, 1, 2] := by
    rw [hlists.order _ (by rw [hroots]; exact hall)]
    rfl
  refine ⟨run, hrun, hroots, hstructs, ?_, ?_⟩
  · rw [hlists.totals, Run.counts, hstructs]
    rfl
  · rw [hlists.totals, Run.counts, hroots]
    rfl

end Generator

end RecordSchema.Generation
