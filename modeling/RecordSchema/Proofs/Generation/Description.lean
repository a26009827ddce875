import RecordSchema.Catalog.Build
import RecordSchema.Proofs.Generation.Erasure
import RecordSchema.Proofs.Generation.Paths

/-!
# The texts of a run

Documentation is put on along every path that leads to a struct, from one resource after the other
and through the structs of other resources, too.  A field ends up with the text of the last of its
paths that is described.  The path that is recorded for it is one of them, and need not be the last.
-/

namespace RecordSchema.Generation

open Docs (DocEntry DocRegistry describeField describeStruct overlayVisits structWalk)
open Schema (Field Graph PathWalk Struct StructId)

variable {c : Catalog} {config : Generator} {run : Run} {g g' : Graph} {id s t : StructId}
  {f : Field} {p : Position} {path : String} {roots : List ResourceRoot}

/-! ## Texts -/

/-- What is told about a field. -/
structure Texts where
  description : String := ""
  markdown : String := ""
deriving DecidableEq, Repr

namespace Texts

def ofField (f : Field) : Texts := ⟨f.description, f.markdownDescription⟩

def ofEntry (e : Option DocEntry) : Texts := e.elim {} fun e => ⟨e.description, e.markdown⟩

end Texts

/-- The last entry with a description among those of `paths`. -/
def lastAlong? (r : DocRegistry) (paths : List String) : Option DocEntry :=
  (paths.filterMap r.described?).getLast?

theorem lastAlong?_concat (r : DocRegistry) (paths : List String) (path : String) :
    lastAlong? r (paths ++ [path]) = (r.described? path).or (lastAlong? r paths) := by
  have hone : ([path].filterMap r.described?).getLast? = r.described? path := by
    rw [List.filterMap_cons, List.filterMap_nil]
    cases r.described? path <;> rfl
  rw [lastAlong?, List.filterMap_append, List.getLast?_append, hone, lastAlong?]

/-- The last entry with a description among those of a field below `paths`. -/
def lastDescribed? (r : DocRegistry) (paths : List String) (f : Field) : Option DocEntry :=
  (paths.filterMap fun path => r.described? (outputPath path f)).getLast?

theorem lastDescribed?_eq_lastAlong? (r : DocRegistry) (paths : List String) (f : Field) :
    lastDescribed? r paths f = lastAlong? r (paths.map (outputPath · f)) := by
  rw [lastAlong?, List.filterMap_map]
  rfl

theorem lastDescribed?_concat (r : DocRegistry) (paths : List String) (path : String) (f : Field) :
    lastDescribed? r (paths ++ [path]) f =
      (r.described? (outputPath path f)).or (lastDescribed? r paths f) := by
  rw [lastDescribed?_eq_lastAlong?, List.map_append, List.map_singleton, lastAlong?_concat,
    ← lastDescribed?_eq_lastAlong?]

/-- Only the output name of a field tells what describes it. -/
theorem lastDescribed?_congr {r : DocRegistry} {paths : List String} {f f' : Field}
    (h : f'.outputName = f.outputName) : lastDescribed? r paths f' = lastDescribed? r paths f := by
  simp only [lastDescribed?, outputPath, h]

/-- If only one of the paths of a field has an entry, this is the last one. -/
theorem lastDescribed?_eq_of_forall {r : DocRegistry} {paths : List String} {e : DocEntry}
    (hmem : path ∈ paths) (he : r.described? (outputPath path f) = some e)
    (hother : ∀ other ∈ paths, outputPath other f ≠ outputPath path f →
      r.described? (outputPath other f) = none) : lastDescribed? r paths f = some e := by
  have hall : ∀ e' ∈ paths.filterMap fun path => r.described? (outputPath path f), e' = e := by
    intro e' he'
    obtain ⟨other, hmem', hentry⟩ := List.mem_filterMap.1 he'
    by_cases hsame : outputPath other f = outputPath path f
    · rw [hsame, he] at hentry
      exact (Option.some.inj hentry).symm
    · cases (hother other hmem' hsame).symm.trans hentry
  have hsome : e ∈ paths.filterMap fun path => r.described? (outputPath path f) :=
    List.mem_filterMap.2 ⟨path, hmem, he⟩
  rw [lastDescribed?, List.getLast?_eq_some_getLast (List.ne_nil_of_mem hsome)]
  exact congrArg some (hall _ (List.getLast_mem _))

/-- The field as it is described below one path after the other. -/
def describeAlong (r : DocRegistry) (paths : List String) (f : Field) : Field :=
  paths.foldl (fun f path => describeField r path f) f

theorem outputName_describeField (r : DocRegistry) (path : String) (f : Field) :
    (describeField r path f).outputName = f.outputName := by
  rw [describeField]
  split <;> rfl

theorem outputName_describeAlong (r : DocRegistry) (paths : List String) (f : Field) :
    (describeAlong r paths f).outputName = f.outputName := by
  induction paths generalizing f with
  | nil => rfl
  | cons path rest ih => exact (ih _).trans (outputName_describeField r path f)

/-- A description replaces what was told about the field. -/
theorem ofField_describeField (r : DocRegistry) (path : String) (f : Field) :
    Texts.ofField (describeField r path f) =
      (r.described? (outputPath path f)).elim (.ofField f) fun e => .ofEntry (some e) := by
  rw [describeField]
  cases r.described? (outputPath path f) <;> rfl

/-- The last description stays. -/
theorem ofField_describeAlong (r : DocRegistry) (paths : List String)
    (hf : Texts.ofField f = {}) :
    Texts.ofField (describeAlong r paths f) = .ofEntry (lastDescribed? r paths f) := by
  induction paths using List.reverseRecOn with
  | nil => exact hf
  | append_singleton paths path ih =>
      have hlater : outputPath path (describeAlong r paths f) = outputPath path f := by
        rw [outputPath, outputName_describeAlong, outputPath]
      rw [describeAlong, List.foldl_concat, ← describeAlong, ofField_describeField, hlater, ih,
        lastDescribed?_concat]
      cases r.described? (outputPath path f) <;> rfl

/-! ## The overlay as one list of visits -/

/-- Describes the struct of a visit. -/
def describeVisit (r : DocRegistry) (g : Graph) (visit : StructId × String) : Graph :=
  g.modify visit.1 (describeStruct r visit.2)

/-- The paths of the visits to a struct. -/
def pathsTo (visits : List (StructId × String)) (id : StructId) : List String :=
  (visits.filter (·.1 == id)).map Prod.snd

theorem mem_pathsTo_iff {visits : List (StructId × String)} :
    path ∈ pathsTo visits id ↔ (id, path) ∈ visits := by
  simp [pathsTo]

theorem fieldsAt_describeVisit (r : DocRegistry) (g : Graph) (visit : StructId × String)
    (id : StructId) :
    (describeVisit r g visit).fieldsAt id =
      if visit.1 = id then (g.fieldsAt id).map (describeField r visit.2) else g.fieldsAt id := by
  have hfields (s : Struct) : (describeStruct r visit.2 s).fields =
      s.fields.map (describeField r visit.2) := by
    rw [describeStruct]
    split <;> rfl
  rw [describeVisit, Graph.fieldsAt, Graph.get?_modify, Graph.fieldsAt]
  cases g.get? id with
  | none => simp
  | some s =>
      rw [Option.map_some]
      split
      · exact hfields s
      · rfl

theorem fieldsAt_foldl_describeVisit (r : DocRegistry) (visits : List (StructId × String))
    (g : Graph) (id : StructId) :
    (visits.foldl (describeVisit r) g).fieldsAt id =
      (g.fieldsAt id).map (describeAlong r (pathsTo visits id)) := by
  induction visits generalizing g with
  | nil => exact (List.map_id _).symm
  | cons visit rest ih =>
      rw [List.foldl_cons, ih, fieldsAt_describeVisit, pathsTo, pathsTo, List.filter_cons]
      by_cases h : visit.1 = id
      · rw [if_pos h, if_pos (beq_iff_eq.2 h), List.map_map]
        rfl
      · rw [if_neg h, if_neg (by simpa using h)]

/-- A registry without entries describes nothing. -/
theorem describeVisit_of_isEmpty {r : DocRegistry} (h : r.isEmpty = true) (g : Graph)
    (visit : StructId × String) : describeVisit r g visit = g := by
  have hnone (path : String) : r.described? path = none := by
    rw [DocRegistry.described?, DocRegistry.entry?, DocRegistry.find?, List.isEmpty_iff.1 h]
    rfl
  have hself : describeStruct r visit.2 = id := by
    funext s
    have hfields : describeField r visit.2 = id := by
      funext f
      rw [describeField, hnone]
      rfl
    rw [describeStruct, hnone, hfields, List.map_id]
    rfl
  rw [describeVisit, hself, Graph.modify, List.modify_id]

/-- An overlay from a path that is not blank describes what it visits. -/
theorem apply_eq_foldl (r : DocRegistry) (g : Graph) (root : StructId) (path : String) :
    r.apply g root path = if (Text.trim path).isEmpty then g
      else (overlayVisits g root (Text.trim path)).foldl (describeVisit r) g := by
  rw [DocRegistry.apply]
  cases hr : r.isEmpty with
  | true =>
      have hsame := Graph.foldl_invariant (fun g => g) (describeVisit_of_isEmpty hr)
        (overlayVisits g root (Text.trim path)) g
      rw [Bool.true_or, if_pos rfl]
      split
      · rfl
      · exact hsame.symm
  | false => rfl

namespace ResourceRoot

/-- Where the overlay of a resource starts; blanks around its name do not count. -/
def overlayStart (root : ResourceRoot) : Position :=
  ⟨Text.trim root.resource.name, root.xmlRoot⟩

/-- The visits of the overlay of a resource; there are none without a name. -/
def overlay (g : Graph) (root : ResourceRoot) : List (StructId × String) :=
  if root.overlayStart.path.isEmpty then []
  else overlayVisits g root.id root.overlayStart.path

theorem overlay_eq_of_sameUpTo (h : g.SameUpTo .core g') (root : ResourceRoot) :
    root.overlay g' = root.overlay g := by
  rw [overlay, overlay, overlayVisits_eq_of_sameUpTo h]

theorem apply_eq (r : DocRegistry) (g : Graph) (root : ResourceRoot) :
    r.apply g root.id root.resource.name = (root.overlay g).foldl (describeVisit r) g := by
  rw [apply_eq_foldl, overlay]
  change (if root.overlayStart.path.isEmpty = true then g else _) = _
  split <;> rfl

end ResourceRoot

/-- The visits of all resources, one resource after the other. -/
def overlays (g : Graph) (roots : List ResourceRoot) : List (StructId × String) :=
  roots.flatMap (·.overlay g)

theorem overlays_eq_of_sameUpTo (h : g.SameUpTo .core g') (roots : List ResourceRoot) :
    overlays g' roots = overlays g roots :=
  congrArg roots.flatMap (funext fun root => root.overlay_eq_of_sameUpTo h)

/-- What is visited does not depend on what is put on, so it can be listed beforehand. -/
theorem foldl_apply_eq (r : DocRegistry) (roots : List ResourceRoot)
    (h : g.SameUpTo .core g') :
    roots.foldl (fun g root => r.apply g root.id root.resource.name) g' =
      (overlays g roots).foldl (describeVisit r) g' := by
  induction roots generalizing g' with
  | nil => rfl
  | cons root rest ih =>
      have hnext := h.trans (sameUpTo_apply r g' root.id root.resource.name).core_of_unnoted
      rw [List.foldl_cons, ih hnext, overlays, overlays, List.flatMap_cons, List.foldl_append,
        root.apply_eq, root.overlay_eq_of_sameUpTo h]

/-! ## Where the overlay comes -/

/-- Steps of the walk over structs are those of chains. -/
theorem structWalk_reaches_iff :
    (structWalk g).Reaches (s, p.path) (t, path) ↔
      ∃ chain, g.Chain s chain t ∧ path = (p.along chain).path := by
  constructor
  · intro h
    generalize ha : (s, p.path) = a at h
    generalize hb : (t, path) = b at h
    induction h using Relation.ReflTransGen.head_induction_on generalizing s p with
    | refl =>
        obtain ⟨rfl, rfl⟩ := Prod.mk.inj (ha.trans hb.symm)
        exact ⟨[], .nil _, rfl⟩
    | head hstep _ ih =>
        subst ha
        obtain ⟨f, hf, hopen⟩ := List.mem_filterMap.1 hstep
        obtain ⟨m, hm, rfl⟩ := Option.map_eq_some_iff.1 hopen
        obtain ⟨chain, hchain, hpath⟩ := ih (p := p.below f) rfl
        exact ⟨f :: chain, .cons hf hm hchain, hpath⟩
  · rintro ⟨chain, hchain, rfl⟩
    induction hchain generalizing p with
    | nil => exact .refl
    | cons mem opens _ ih =>
        refine .head (List.mem_filterMap.2 ⟨_, mem, ?_⟩) ih
        rw [opens]
        rfl

/-- The overlay comes to a struct along chains only. -/
theorem exists_chain_of_mem_overlayVisits {order : List StructId} (horder : g.LinkOrder order)
    (h : (t, path) ∈ overlayVisits g s p.path) :
    ∃ chain, g.Chain s chain t ∧ path = (p.along chain).path := by
  obtain ⟨v, hruns, hnodes⟩ := Reflection.exists_runs_structWalk horder s p.path
  rw [← hnodes, List.mem_reverse] at h
  obtain ⟨a, ha, hreach⟩ := (hruns.exists_reaches h).resolve_left List.not_mem_nil
  rw [List.mem_singleton.1 ha] at hreach
  exact structWalk_reaches_iff.1 hreach

/-- Where paths tell chains apart, the overlay comes along all of them. -/
theorem mem_overlayVisits_of_chain {order : List StructId} (horder : g.LinkOrder order)
    (hdistinct : g.DistinctNames)
    (hdots : ∀ t ∈ g.structs, ∀ f ∈ t.fields, '.' ∉ f.outputName.toList) {chain : List Field}
    (h : g.Chain s chain t) : (t, (p.along chain).path) ∈ overlayVisits g s p.path := by
  obtain ⟨v, hruns, hnodes⟩ := Reflection.exists_runs_structWalk horder s p.path
  rw [← hnodes, List.mem_reverse]
  refine (hruns.mem_nodes_iff ?_).2
    ⟨(s, p.path), List.mem_singleton_self _, structWalk_reaches_iff.2 ⟨chain, h, rfl⟩⟩
  rintro a ha ⟨u, q⟩ hreach a' ha' ⟨u', q'⟩ hreach' hpath
  rw [List.mem_singleton.1 ha] at hreach
  rw [List.mem_singleton.1 ha'] at hreach'
  obtain ⟨chain, hchain, rfl⟩ := structWalk_reaches_iff.1 hreach
  obtain ⟨chain', hchain', rfl⟩ := structWalk_reaches_iff.1 hreach'
  have hnames {chain : List Field} {u : StructId} (h : g.Chain s chain u) :
      ∀ f ∈ chain, '.' ∉ f.outputName.toList := by
    intro f hf
    obtain ⟨t, ht, hmem⟩ := h.exists_struct f hf
    exact hdots t ht f hmem
  obtain ⟨rfl, rfl⟩ := hdistinct.chain_unique hchain hchain'
    (Position.outputNames_eq_of_path_eq (hnames hchain) (hnames hchain') hpath)
  rfl

/-! ## Texts before the overlay -/

/-- What is told about the fields of a struct. -/
def textsAt (g : Graph) (id : StructId) : List Texts := (g.fieldsAt id).map .ofField

theorem textsAt_exclude (g : Graph) (e : Exclusion) (id : StructId) :
    textsAt (exclude g e) id = textsAt g id := by
  rw [exclude]
  split
  · rfl
  · rw [textsAt, textsAt, Graph.fieldsAt, Graph.get?_modify, Graph.fieldsAt]
    cases g.get? id with
    | none => rfl
    | some s =>
        rw [Option.map_some]
        split
        · cases e.field with
          | none => rfl
          | some name => exact map_excludeField Texts.ofField (fun _ _ => rfl) ..
        · rfl

theorem textsAt_placeStruct (g : Graph) (visit : StructId × Position) (id : StructId) :
    textsAt (placeStruct g visit) id = textsAt g id := by
  have hplace : Texts.ofField ∘ placeField visit.2 = Texts.ofField := by
    funext f
    rw [Function.comp_apply, placeField]
    split <;> rfl
  rw [textsAt, fieldsAt_placeStruct, textsAt]
  split
  · rw [List.map_map, hplace]
  · rfl

/-- Nothing is told about a field before the overlay. -/
theorem ofField_of_mem_placedGraph (hf : f ∈ (placedGraph config c roots).fieldsAt id) :
    Texts.ofField f = {} := by
  have hplaced : textsAt (placedGraph config c roots) id = textsAt (resourceGraph c roots) id := by
    rw [placedGraph, assignRootPaths_eq, excludedGraph]
    exact (Graph.foldl_invariant (textsAt · id) (textsAt_placeStruct · · id) ..).trans
      (Graph.foldl_invariant (textsAt · id) (textsAt_exclude · · id) ..)
  have hmem := List.mem_map_of_mem (f := Texts.ofField) hf
  rw [← textsAt, hplaced] at hmem
  obtain ⟨bare, hbare, heq⟩ := List.mem_map.1 hmem
  have hempty := annotations_resourceGraph hbare
  have hdescription : bare.description = "" :=
    congrArg Schema.Annotations.description hempty
  have hmarkdown : bare.markdownDescription = "" :=
    congrArg Schema.Annotations.markdownDescription hempty
  rw [← heq, Texts.ofField, hdescription, hmarkdown]

/-! ## Runs -/

namespace Run

/-- The paths along which a struct is described, in the order in which this is done. -/
def pathsTo (run : Run) (id : StructId) : List String :=
  Generation.pathsTo (overlays run.graph run.roots) id

/-- Paths tell the chains of a root apart, and resources are named without blanks around. -/
structure PathsApart (run : Run) : Prop where
  distinct : run.graph.DistinctNames
  dots : ∀ t ∈ run.graph.structs, ∀ f ∈ t.fields, '.' ∉ f.outputName.toList
  named : ∀ root ∈ run.roots,
    root.resource.name ≠ "" ∧ Text.trim root.resource.name = root.resource.name

/-- What is told about the fields of the struct `s` at `id`. -/
structure Describes (config : Generator) (run : Run) (id : StructId) (s : Struct) : Prop where
  get : run.graph.get? id = some s
  /-- A field has the texts of the last of its paths that is described. -/
  texts : ∀ f ∈ s.fields,
    Texts.ofField f = .ofEntry (lastDescribed? config.docs (run.pathsTo id) f)
  /-- Each of the paths is that of a chain from a root. -/
  chain : ∀ path ∈ run.pathsTo id, ∃ root ∈ run.roots, ∃ fields,
    run.graph.Chain root.id fields id ∧ path = (root.overlayStart.along fields).path
  /-- The path of every chain is among them. -/
  complete : run.PathsApart → ∀ root ∈ run.roots, ∀ fields,
    run.graph.Chain root.id fields id →
      (root.pathRoot.position.along fields).path ∈ run.pathsTo id
  /-- The recorded path of a field is one of its paths. -/
  recorded : run.PathsApart → ∃ path ∈ run.pathsTo id, ∀ f ∈ s.fields, f.path = outputPath path f
  /-- A field has the texts of its recorded path if none of its other paths is described. -/
  alone : run.PathsApart → ∀ f ∈ s.fields, ∀ e, config.docs.described? f.path = some e →
    (∀ path ∈ run.pathsTo id, outputPath path f ≠ f.path →
      config.docs.described? (outputPath path f) = none) →
    Texts.ofField f = .ofEntry (some e)

/-- The graph of a run is described by one list of visits. -/
theorem graph_eq_foldl (h : config.run c = .ok run) :
    run.graph = (overlays run.graph run.roots).foldl (describeVisit config.docs)
      (placedGraph config c run.roots) := by
  have hsame := (Generator.run_stages h).described.core_of_unnoted
  rw [overlays_eq_of_sameUpTo hsame, ← foldl_apply_eq config.docs run.roots (.refl _)]
  exact congrArg Run.graph (Generator.eq_report_of_run h).2.2

theorem ofField_eq (h : config.run c = .ok run) (hf : f ∈ run.graph.fieldsAt id) :
    Texts.ofField f = .ofEntry (lastDescribed? config.docs (run.pathsTo id) f) := by
  have hfields := fieldsAt_foldl_describeVisit config.docs (overlays run.graph run.roots)
    (placedGraph config c run.roots) id
  rw [← graph_eq_foldl h] at hfields
  rw [hfields] at hf
  obtain ⟨placed, hplaced, rfl⟩ := List.mem_map.1 hf
  rw [ofField_describeAlong _ _ (ofField_of_mem_placedGraph hplaced)]
  rw [lastDescribed?_congr (outputName_describeAlong ..)]
  rfl

theorem mem_pathsTo_iff : path ∈ run.pathsTo id ↔
    ∃ root ∈ run.roots, root.overlayStart.path ≠ "" ∧
      (id, path) ∈ overlayVisits run.graph root.id root.overlayStart.path := by
  rw [pathsTo, Generation.mem_pathsTo_iff, overlays, List.mem_flatMap]
  refine exists_congr fun root => and_congr_right fun _ => ?_
  rw [ResourceRoot.overlay]
  split
  · rename_i h
    simp [String.isEmpty_iff.1 h]
  · rename_i h
    rw [iff_and_self]
    exact fun _ hempty => h (String.isEmpty_iff.2 hempty)

/-- A resource that is named without blanks around is described from where its paths start. -/
theorem PathsApart.overlayStart_eq (h : run.PathsApart) {root : ResourceRoot}
    (hroot : root ∈ run.roots) : root.overlayStart = root.pathRoot.position := by
  rw [ResourceRoot.overlayStart, (h.named root hroot).2]
  rfl

namespace Stages

variable (h : run.Stages config c)

include h

theorem exists_chain_of_mem_pathsTo (hpath : path ∈ run.pathsTo id) :
    ∃ root ∈ run.roots, ∃ fields,
      run.graph.Chain root.id fields id ∧ path = (root.overlayStart.along fields).path := by
  obtain ⟨order, horder⟩ := h.exists_linkOrder
  obtain ⟨root, hroot, -, hvisit⟩ := mem_pathsTo_iff.1 hpath
  obtain ⟨fields, hchain, hend⟩ := exists_chain_of_mem_overlayVisits horder hvisit
  exact ⟨root, hroot, fields, hchain, hend⟩

theorem mem_pathsTo_of_chain (hapart : run.PathsApart) {root : ResourceRoot}
    (hroot : root ∈ run.roots) {fields : List Field} (hchain : run.graph.Chain root.id fields id) :
    (root.pathRoot.position.along fields).path ∈ run.pathsTo id := by
  obtain ⟨order, horder⟩ := h.exists_linkOrder
  have hstart := hapart.overlayStart_eq hroot
  refine mem_pathsTo_iff.2 ⟨root, hroot, ?_, ?_⟩
  · rw [hstart]
    exact (hapart.named root hroot).1
  · rw [hstart]
    exact mem_overlayVisits_of_chain horder hapart.distinct hapart.dots hchain

end Stages

end Run

namespace Generator

/-! ### A network and a domain -/

/-- A network with a bridge, and a domain that is connected to one. -/
def bridgeCatalog : Catalog :=
  .ofRecords "domain"
    [{ name := "Network", fields := [.inAttribute "Bridge" .string "bridge"] },
     { name := "Domain", fields := [.inElement "Uplink" (.named "Network") "uplink"] }]

def bridgeResources : List Resource := [⟨"network", "Network"⟩, ⟨"domain", "Domain"⟩]

def bridgeRoots : List ResourceRoot :=
  [⟨⟨"network", "Network"⟩, 0, "network"⟩, ⟨⟨"domain", "Domain"⟩, 1, "domain"⟩]

def bridgeGraph : Graph := resourceGraph bridgeCatalog bridgeRoots

/-- The overlay comes to the network from its own resource and through the domain. -/
theorem overlays_bridge : overlays bridgeGraph bridgeRoots =
    [(0, "network"), (1, "domain"), (0, "domain.uplink")] := by
  have hsize : bridgeGraph.size = 2 := by decide +kernel
  have hpath (a : StructId × String) : (structWalk bridgeGraph).path a = a.2 := rfl
  have hdomain : (structWalk bridgeGraph).below (1, "domain") = [(0, "domain.uplink")] := by
    decide +kernel
  have hnetwork : ∀ path ∈ ["network", "domain.uplink"],
      (structWalk bridgeGraph).below (0, path) = [] := by decide +kernel
  have hroots : overlays bridgeGraph bridgeRoots =
      overlayVisits bridgeGraph 0 "network" ++ (overlayVisits bridgeGraph 1 "domain" ++ []) := rfl
  rw [hroots]
  simp [overlayVisits, PathWalk.visits, PathWalk.visit, hsize, hpath, hdomain, hnetwork]

def bridgeGenerator (docs : DocRegistry) : Generator := { resources := bridgeResources, docs }

theorem exists_bridgeRun (docs : DocRegistry) :
    ∃ run, (bridgeGenerator docs).run bridgeCatalog = .ok run ∧ run.roots = bridgeRoots := by
  have hroots : (reflected bridgeResources bridgeCatalog).toOption.map Prod.fst =
      some bridgeRoots := by decide +kernel
  rw [run_eq, bridgeGenerator]
  cases hreflected : reflected bridgeResources bridgeCatalog with
  | error e =>
      rw [hreflected] at hroots
      cases hroots
  | ok out =>
      rw [hreflected] at hroots
      exact ⟨_, rfl, Option.some.inj hroots⟩

/-- The name of a struct and the output names of its fields. -/
def namesOf (s : Struct) : String × List String := (s.name, s.fields.map (·.outputName))

/-- Names are not put on. -/
theorem map_namesOf_of_sameUpTo (h : g.SameUpTo .core g') :
    g'.structs.map namesOf = g.structs.map namesOf := by
  refine h.map_structs namesOf fun s s' heq => ?_
  have hcore (s : Struct) : namesOf (s.erased .core) = namesOf s := by
    simp [namesOf, Struct.erased, Function.comp_def, Field.core, Field.unnoted, Field.unplaced]
  rw [← hcore s', heq, hcore]

section Bridge

variable {docs : DocRegistry} (h : (bridgeGenerator docs).run bridgeCatalog = .ok run)
  (hroots : run.roots = bridgeRoots)

include h hroots

theorem sameUpTo_bridge : bridgeGraph.SameUpTo .core run.graph := by
  have hsame := sameUpTo_of_described (run_stages h).described
  rwa [hroots] at hsame

theorem pathsTo_bridge : run.pathsTo 0 = ["network", "domain.uplink"] := by
  rw [Run.pathsTo, hroots, overlays_eq_of_sameUpTo (sameUpTo_bridge h hroots), overlays_bridge]
  rfl

theorem names_bridge :
    run.graph.structs.map namesOf = [("Network", ["bridge"]), ("Domain", ["uplink"])] := by
  rw [map_namesOf_of_sameUpTo (sameUpTo_bridge h hroots)]
  decide +kernel

theorem pathsApart_bridge : run.PathsApart := by
  have hmem {t : Struct} (ht : t ∈ run.graph.structs) :
      namesOf t ∈ [("Network", ["bridge"]), ("Domain", ["uplink"])] :=
    names_bridge h hroots ▸ List.mem_map_of_mem ht
  have hdistinct : ∀ n ∈ [("Network", ["bridge"]), ("Domain", ["uplink"])], n.2.Nodup := by decide
  have hdots : ∀ n ∈ [("Network", ["bridge"]), ("Domain", ["uplink"])],
      ∀ output ∈ n.2, '.' ∉ output.toList := by decide
  refine ⟨fun t ht => hdistinct _ (hmem ht), fun t ht f hf => ?_, ?_⟩
  · exact hdots _ (hmem ht) _ (List.mem_map_of_mem hf)
  · rw [hroots]
    decide +kernel

/-- The bridge of a network has the path of its own resource. -/
theorem exists_bridgeField : 0 ∈ run.structs ∧ ∃ s f, run.graph.get? 0 = some s ∧
    s.fields = [f] ∧ f.outputName = "bridge" ∧ f.path = "network.bridge" := by
  have hstages := run_stages h
  have hid : 0 ∈ run.structs := hstages.mem_structs_iff.2
    ⟨⟨⟨"network", "Network"⟩, 0, "network"⟩, by rw [hroots]; decide, [], .nil _⟩
  obtain ⟨s, root, fields, hpaths⟩ := hstages.exists_pathsFrom hid
  have hnames : (run.graph.get? 0).map namesOf = some ("Network", ["bridge"]) := by
    rw [Graph.get?, ← List.getElem?_map, names_bridge h hroots]
    rfl
  rw [hpaths.get] at hnames
  obtain ⟨hname, hfields⟩ := Prod.mk.inj (Option.some.inj hnames)
  obtain ⟨f, hf, houtput⟩ := List.map_eq_singleton_iff.1 hfields
  obtain ⟨rfl, hresource, -⟩ := hpaths.own ⟨"network", "Network"⟩ (by rw [hname]; rfl)
  refine ⟨hid, s, f, hpaths.get, hf, houtput, ?_⟩
  rw [(hpaths.path f (by simp [hf])).1, Position.along_nil, outputPath, houtput,
    ResourceRoot.pathRoot, hresource]
  rfl

end Bridge

/-! ### The texts of fields -/

/-- In a run that succeeds a field of the output has the texts of the last of its paths that is
described, one resource after the other, or none.  Where paths tell chains apart, these are the
paths of all chains from a root, and the recorded path is one of them; so a field has the texts of
its recorded path if no other one is described. -/
theorem run_describes (h : config.run c = .ok run) :
    ∀ id ∈ run.structs, ∃ s, run.Describes config id s := by
  intro id hid
  have hstages := run_stages h
  obtain ⟨s, root, fields, hpaths⟩ := hstages.exists_pathsFrom hid
  have htexts (f : Field) (hf : f ∈ s.fields) :
      Texts.ofField f = .ofEntry (lastDescribed? config.docs (run.pathsTo id) f) :=
    Run.ofField_eq h (Graph.fieldsAt_of_get? hpaths.get ▸ hf)
  have hrecorded (hapart : run.PathsApart) :
      ∃ path ∈ run.pathsTo id, ∀ f ∈ s.fields, f.path = outputPath path f :=
    ⟨_, hstages.mem_pathsTo_of_chain hapart hpaths.mem hpaths.chain,
      fun f hf => (hpaths.path f hf).1⟩
  refine ⟨s, {
    get := hpaths.get
    texts := htexts
    chain := fun path => hstages.exists_chain_of_mem_pathsTo
    complete := fun hapart root hroot fields => hstages.mem_pathsTo_of_chain hapart hroot
    recorded := hrecorded
    alone := fun hapart f hf e he hother => ?_ }⟩
  obtain ⟨own, hown, hpath⟩ := hrecorded hapart
  rw [htexts f hf, lastDescribed?_eq_of_forall hown (hpath f hf ▸ he) fun path hmem hne =>
    hother path hmem fun heq => hne (heq.trans (hpath f hf))]

/-- The network is reached by its own resource and through the domain. -/
theorem run_describes_bridge :
    let docs : DocRegistry :=
      ⟨[⟨{ path := "network.bridge", description := "The bridge of a network."
           reference := "bridge.html" }, "network.yaml"⟩]⟩
    ∃ run, (bridgeGenerator docs).run bridgeCatalog = .ok run ∧ 0 ∈ run.structs ∧
      run.PathsApart ∧ run.pathsTo 0 = ["network", "domain.uplink"] ∧
      ∃ s, run.graph.get? 0 = some s ∧ s.fields.map (fun f => (f.path, Texts.ofField f)) =
        [("network.bridge",
          ⟨"The bridge of a network.", "The bridge of a network.\n\nSee: <bridge.html>"⟩)] := by
  intro docs
  obtain ⟨run, hrun, hroots⟩ := exists_bridgeRun docs
  obtain ⟨hid, s, f, hs, hfields, hname, hpath⟩ := exists_bridgeField hrun hroots
  have hpaths := pathsTo_bridge hrun hroots
  have hapart := pathsApart_bridge hrun hroots
  obtain ⟨s', hdescribes⟩ := run_describes hrun 0 hid
  obtain rfl := Option.some.inj (hs.symm.trans hdescribes.get)
  have hf : f ∈ s.fields := by simp [hfields]
  let e : DocEntry :=
    { path := "network.bridge", description := "The bridge of a network."
      reference := "bridge.html" }
  have hentry : docs.described? f.path = some e := by
    rw [hpath]
    decide +kernel
  have hother : ∀ path ∈ run.pathsTo 0, outputPath path f ≠ f.path →
      docs.described? (outputPath path f) = none := by
    rw [hpaths, hpath]
    simp only [outputPath, hname]
    decide +kernel
  have htexts := hdescribes.alone hapart f hf e hentry hother
  refine ⟨run, hrun, hid, hapart, hpaths, s, hs, ?_⟩
  rw [hfields, List.map_singleton, htexts, hpath]
  rfl

/-- The bridges of networks and of domains. -/
def bridgeDocs : DocRegistry :=
  ⟨[⟨{ path := "domain.uplink.bridge", description := "The bridge of a domain." }, "domain.yaml"⟩,
    ⟨{ path := "network.bridge", description := "The bridge of a network." }, "network.yaml"⟩]⟩

/-- The bridge of a network has the text of the bridge of a domain, though its own path is described
and is the one that is recorded. -/
theorem recorded_text_replaced :
    ∃ run, (bridgeGenerator bridgeDocs).run bridgeCatalog = .ok run ∧
      ∃ id ∈ run.structs, ∃ s, run.graph.get? id = some s ∧ ∃ f ∈ s.fields, ∃ e,
        f.path = "network.bridge" ∧ bridgeDocs.described? f.path = some e ∧
        e.description = "The bridge of a network." ∧
        f.description = "The bridge of a domain." := by
  obtain ⟨run, hrun, hroots⟩ := exists_bridgeRun bridgeDocs
  obtain ⟨hid, s, f, hs, hfields, hname, hpath⟩ := exists_bridgeField hrun hroots
  have hf : f ∈ s.fields := by simp [hfields]
  have htexts := Run.ofField_eq hrun (Graph.fieldsAt_of_get? hs ▸ hf)
  rw [pathsTo_bridge hrun hroots] at htexts
  have hlast : lastDescribed? bridgeDocs ["network", "domain.uplink"] f =
      some { path := "domain.uplink.bridge", description := "The bridge of a domain." } := by
    simp only [lastDescribed?, outputPath, hname]
    decide +kernel
  refine ⟨run, hrun, 0, hid, s, hs, f, hf,
    { path := "network.bridge", description := "The bridge of a network." }, hpath, ?_, rfl, ?_⟩
  · rw [hpath]
    decide +kernel
  · exact congrArg Texts.description (htexts.trans (congrArg Texts.ofEntry hlast))

end Generator

end RecordSchema.Generation
