import Mathlib.Data.List.Find
import RecordSchema.Proofs.Generation.Placement
import RecordSchema.Proofs.Generation.Structs

/-!
# The paths of a run

In a run that succeeds every struct of the output has its fields in one place: below the end of a
chain that starts at a root and passes through no other one.  The struct of a resource is always in
the place of the first resource of its record, wherever else it is met.
-/

namespace RecordSchema.Generation

open Reflection.Reflector (after routeCatalog)
open Schema (Field Graph Struct StructId)

variable {c : Catalog} {config : Generator} {run : Run} {id : StructId} {s : Struct} {f : Field}
  {start : PathRoot} {fields : List Field}

theorem Position.below_core (p : Position) (f : Field) : p.below f.core = p.below f := rfl

/-- The struct `s` at `id` has its paths from a chain of fields that starts at a root. -/
structure Run.PathsFrom (config : Generator) (run : Run) (id : StructId) (s : Struct)
    (root : ResourceRoot) (fields : List Field) : Prop where
  get : run.graph.get? id = some s
  mem : root ∈ run.roots
  chain : run.graph.Chain root.id fields id
  /-- The chain passes through no root. -/
  apart : ∀ f ∈ fields, ∀ r ∈ run.roots, f.nestedTarget? ≠ some r.id
  path : ∀ f ∈ s.fields,
    f.path = outputPath (root.pathRoot.position.along fields).path f ∧ f.path ≠ ""
  xmlPath : ∀ f ∈ s.fields,
    f.xmlPath = Generation.xmlPath (root.pathRoot.position.along fields).xmlPath f ∧ f.xmlPath ≠ ""
  /-- The paths of the struct of a resource start with the first resource of its record. -/
  own : ∀ q, config.resources.find? (·.record == s.name) = some q →
    fields = [] ∧ root.resource = q ∧ root.xmlRoot = s.element.getD q.name

namespace Run.Stages

variable (h : run.Stages config c)

include h

/-- The first root at a struct is that of the first resource of its record. -/
theorem map_find?_root (hs : run.graph.get? id = some s) :
    (run.roots.find? (·.id == id)).map (·.resource) =
      config.resources.find? (·.record == s.name) := by
  rw [← h.resources, List.find?_map]
  refine congrArg _ (List.find?_congr fun root hroot => Bool.eq_iff_iff.2 ?_)
  have hlookup := (h.roots root hroot).lookup
  change (root.id == id) = true ↔ (root.resource.record == s.name) = true
  rw [beq_iff_eq, beq_iff_eq]
  constructor
  · rintro rfl
    obtain ⟨t, ht, hname⟩ := h.indexed.lookup_iff.1 hlookup
    obtain rfl := Option.some.inj (ht.symm.trans hs)
    exact hname.symm
  · intro hname
    rw [hname] at hlookup
    exact Option.some.inj (hlookup.symm.trans (h.indexed.lookup_name hs))

omit h in
theorem exists_root (hfirst : FirstAlong run.graph (run.roots.map ResourceRoot.pathRoot) id start
    fields) :
    ∃ root ∈ run.roots, root.pathRoot = start ∧
      ((run.roots.find? (·.id == id)).isSome →
        fields = [] ∧ run.roots.find? (·.id == id) = some root) := by
  cases hfind : run.roots.find? (·.id == id) with
  | none =>
      obtain ⟨root, hroot, hstart⟩ := List.mem_map.1 hfirst.mem
      exact ⟨root, hroot, hstart, fun hsome => by cases hsome⟩
  | some root =>
      have hroot := List.mem_of_find?_eq_some hfind
      have hself : root.id = id := by simpa using List.find?_some hfind
      have hid : id ∈ (run.roots.map ResourceRoot.pathRoot).map (·.id) :=
        List.mem_map.2 ⟨root.pathRoot, List.mem_map_of_mem hroot, hself⟩
      obtain ⟨hfields, hstart⟩ := hfirst.own hid
      rw [List.find?_map] at hstart
      replace hstart : (run.roots.find? (·.id == id)).map ResourceRoot.pathRoot = some start :=
        hstart
      rw [hfind] at hstart
      exact ⟨root, hroot, Option.some.inj hstart, fun _ => ⟨hfields, rfl⟩⟩

/-- Each field has the paths of where its struct is visited first. -/
theorem paths_eq (hfirst : FirstAlong run.graph (run.roots.map ResourceRoot.pathRoot) id start
    fields) (hf : f ∈ run.graph.fieldsAt id) :
    f.path = ((start.position.along fields).below f).path ∧
      f.xmlPath = ((start.position.along fields).below f).xmlPath := by
  -- from the run back to where no path is recorded yet
  obtain ⟨placed, hplaced, hnoted⟩ := h.described.exists_field hf
  have hsame := (sameUpTo_placedGraph config c run.roots).trans h.described.core_of_unnoted
  rw [placedGraph, hfirst.fieldsAt_assignRootPaths hsame] at hplaced
  obtain ⟨e, he, rfl⟩ := List.mem_map.1 hplaced
  obtain ⟨bare, hbare, hkept⟩ := (sameUpTo_excludedGraph config c run.roots).exists_field he
  have hpath : bare.path = e.path := (congrArg Field.path hkept :)
  have hempty : e.path = "" := hpath.symm.trans (path_resourceGraph hbare)
  have hcore : e.core = f.core := by
    rw [← core_placeField (start.position.along fields) e]
    exact congrArg Field.unplaced hnoted
  rw [← Position.below_core _ f, ← hcore, Position.below_core]
  rw [placeField, if_pos (by rw [hempty]; rfl)] at hnoted
  exact ⟨(congrArg Field.path hnoted :).symm, (congrArg Field.xmlPath hnoted :).symm⟩

theorem exists_pathsFrom (hid : id ∈ run.structs) :
    ∃ s root fields, run.PathsFrom config id s root fields := by
  obtain ⟨order, horder⟩ := h.exists_linkOrder
  obtain ⟨s, hs⟩ := Graph.get?_eq_some_iff_lt.2 (h.lt_size hid)
  obtain ⟨r, hr, chain, hchain⟩ := h.mem_structs_iff.1 hid
  obtain ⟨start, fields, hfirst⟩ :=
    exists_firstAlong horder ⟨r.pathRoot, List.mem_map_of_mem hr, chain, hchain⟩
  obtain ⟨root, hroot, rfl, hown⟩ := exists_root hfirst
  have hpaths (f : Field) (hf : f ∈ s.fields) :=
    h.paths_eq hfirst (Graph.fieldsAt_of_get? hs ▸ hf)
  refine ⟨s, root, fields, {
    get := hs
    mem := hroot
    chain := hfirst.chain
    apart := fun f hf r hr => hfirst.apart f hf r.pathRoot (List.mem_map_of_mem hr)
    path := fun f hf => ⟨(hpaths f hf).1, ?_⟩
    xmlPath := fun f hf => ⟨(hpaths f hf).2, ?_⟩
    own := fun q hq => ?_ }⟩
  · rw [(hpaths f hf).1]
    exact Position.path_below_ne_empty _ f
  · rw [(hpaths f hf).2]
    exact Position.xmlPath_below_ne_empty _ f
  · rw [← h.map_find?_root hs, Option.map_eq_some_iff] at hq
    obtain ⟨first, hfind, rfl⟩ := hq
    obtain ⟨hnil, hsame⟩ := hown (by rw [hfind]; rfl)
    obtain rfl := Option.some.inj (hfind.symm.trans hsame)
    have hself : first.id = id := by simpa using List.find?_some hfind
    refine ⟨hnil, rfl, ?_⟩
    rw [(h.roots first hroot).xmlRoot, hself, hs]
    rfl

end Run.Stages

namespace Generator

/-- In a run that succeeds, each struct of the output has its paths from one chain of fields that
starts at a root and passes through no other one; a struct of a resource has them from the first
resource of its record. -/
theorem run_pathsFrom (h : config.run c = .ok run) :
    ∀ id ∈ run.structs, ∃ s root fields, run.PathsFrom config id s root fields :=
  fun _ hid => (run_stages h).exists_pathsFrom hid

/-- The network is below the domain and goes by two names; its fields are below the first one. -/
theorem run_pathsFrom_network :
    ∃ run, routeGenerator.run routeCatalog = .ok run ∧ 1 ∈ run.structs ∧
      ∃ s, run.graph.get? 1 = some s ∧ s.name = "Network" ∧
        s.fields.map (fun f => (f.path, f.xmlPath)) =
          [("network.default", "network.default"), ("network.users", "network.user")] := by
  obtain ⟨run, hrun, hroots⟩ := exists_routeRun
  have hstages := run_stages hrun
  have hid : 1 ∈ run.structs := by
    have hroot : 1 ∈ run.roots.map (·.id) := by simp [hroots]
    obtain ⟨root, hroot, hself⟩ := List.mem_map.1 hroot
    exact hstages.mem_structs_iff.2 ⟨root, hroot, [], hself ▸ .nil _⟩
  obtain ⟨s, root, fields, hpaths⟩ := run_pathsFrom hrun 1 hid
  have hget := hpaths.get
  have hstruct : (s.name, s.element) = ("Network", none) := by
    let called (s : Struct) := (s.name, s.element)
    have hkept := hstages.map_get?_eq called (fun _ => rfl)
      (fun _ _ heq => (congrArg called heq :)) 1
    rw [hget, hstages.rootCalls_eq] at hkept
    refine Option.some.inj (hkept.trans ?_)
    decide +kernel
  obtain ⟨hname, helement⟩ := Prod.mk.inj hstruct
  obtain ⟨rfl, hresource, hxmlRoot⟩ := hpaths.own ⟨"network", "Network"⟩ (by rw [hname]; rfl)
  have hposition : root.pathRoot.position = ⟨"network", "network"⟩ := by
    rw [ResourceRoot.pathRoot, hresource, hxmlRoot, helement]
    rfl
  have hplaces : s.fields.map (Position.below ⟨"network", "network"⟩) =
      [⟨"network.default", "network.default"⟩, ⟨"network.users", "network.user"⟩] := by
    have hcore (fields : List Field) (p : Position) :
        fields.map p.below = (fields.map Field.core).map p.below := by
      rw [List.map_map]
      rfl
    rw [← Graph.fieldsAt_of_get? hget, hcore, hstages.map_core_fieldsAt, hstages.rootCalls_eq]
    decide +kernel
  have hpaths : s.fields.map (fun f => (f.path, f.xmlPath)) =
      (s.fields.map (Position.below ⟨"network", "network"⟩)).map fun p => (p.path, p.xmlPath) := by
    rw [List.map_map]
    refine List.map_congr_left fun f hf => ?_
    rw [(hpaths.path f hf).1, (hpaths.xmlPath f hf).1, Position.along_nil, hposition]
    rfl
  refine ⟨run, hrun, hid, s, hget, hname, ?_⟩
  rw [hpaths, hplaces]
  rfl

end Generator

end RecordSchema.Generation
