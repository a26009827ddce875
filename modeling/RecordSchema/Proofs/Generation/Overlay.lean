import RecordSchema.Proofs.Generation.Coverage
import RecordSchema.Proofs.Generation.Description
import RecordSchema.Proofs.Schema.ChainOrder

/-!
# Overlays

An overlay changes descriptions and nothing else.  It follows the chains from its root in the order
of a traversal, and a struct or a field keeps the texts of the last chain whose path is described;
so shared structs, which several chains lead to, have one well-defined text, and doing it again
changes nothing.
-/

namespace RecordSchema.Generation

open Docs (DocEntry DocRegistry describeField describeStruct overlayVisits structWalk)
open Reflection (Call)
open Reflection.Reflector (after)
open Schema (Field Graph PathWalk Struct StructId)

variable {c : Catalog} {g g' : Graph} {id s t : StructId} {f : Field} {p : Position}
  {path rootPath : String} {paths : List String} {chain : List Field} {depth : Nat}
  {chains : List (List Field × StructId)}

/-! ## The texts that stay -/

/-- The field with the texts of the last of its paths that is described, or with its own. -/
def describedField (r : DocRegistry) (paths : List String) (f : Field) : Field :=
  let e := lastDescribed? r paths f
  { f with
    description := e.elim f.description (·.description)
    markdownDescription := e.elim f.markdownDescription (·.markdown) }

/-- The struct with the texts of the last of its paths that is described, or with its own, and its
fields with theirs. -/
def describedStruct (r : DocRegistry) (paths : List String) (s : Struct) : Struct :=
  let e := lastAlong? r paths
  { s with
    description := e.elim s.description (·.description)
    markdownDescription := e.elim s.markdownDescription (·.description)
    fields := s.fields.map (describedField r paths) }

@[simp] theorem describedField_nil (r : DocRegistry) (f : Field) : describedField r [] f = f := rfl

@[simp] theorem describedStruct_nil (r : DocRegistry) (s : Struct) :
    describedStruct r [] s = s := by
  have hfields : describedField r [] = id := by
    funext f
    exact describedField_nil r f
  simp [describedStruct, lastAlong?, hfields]

theorem describedField_concat (r : DocRegistry) (paths : List String) (path : String) (f : Field) :
    describeField r path (describedField r paths f) = describedField r (paths ++ [path]) f := by
  have hpath : outputPath path (describedField r paths f) = outputPath path f := rfl
  rw [describeField, hpath, describedField, describedField, lastDescribed?_concat]
  cases r.described? (outputPath path f) <;> rfl

theorem describedStruct_concat (r : DocRegistry) (paths : List String) (path : String)
    (s : Struct) :
    describeStruct r path (describedStruct r paths s) = describedStruct r (paths ++ [path]) s := by
  have hfields : describeField r path ∘ describedField r paths =
      describedField r (paths ++ [path]) := by
    funext f
    exact describedField_concat r paths path f
  rw [describeStruct, describedStruct, describedStruct, lastAlong?_concat]
  simp only [List.map_map, hfields]
  cases r.described? path <;> rfl

/-- What is described along the same paths once more stays as it is. -/
theorem describedStruct_idem (r : DocRegistry) (paths : List String) (s : Struct) :
    describedStruct r paths (describedStruct r paths s) = describedStruct r paths s := by
  have hfields : describedField r paths ∘ describedField r paths = describedField r paths := by
    funext f
    have hlast : lastDescribed? r paths (describedField r paths f) = lastDescribed? r paths f :=
      lastDescribed?_congr rfl
    rw [Function.comp_apply, describedField, hlast, describedField]
    cases lastDescribed? r paths f <;> rfl
  simp only [describedStruct, List.map_map, hfields]
  cases lastAlong? r paths <;> rfl

theorem pathsTo_concat (visits : List (StructId × String)) (visit : StructId × String)
    (id : StructId) : pathsTo (visits ++ [visit]) id =
      if visit.1 = id then pathsTo visits id ++ [visit.2] else pathsTo visits id := by
  rw [pathsTo, List.filter_append, List.map_append, pathsTo]
  by_cases h : visit.1 = id <;> simp [h]

/-- A struct ends up with the texts of the last of its visits that is described. -/
theorem get?_foldl_describeVisit (r : DocRegistry) (visits : List (StructId × String)) (g : Graph)
    (id : StructId) : (visits.foldl (describeVisit r) g).get? id =
      (g.get? id).map (describedStruct r (pathsTo visits id)) := by
  induction visits using List.reverseRecOn with
  | nil =>
      have hnil : describedStruct r (pathsTo [] id) = fun s => s := by
        funext s
        exact describedStruct_nil r s
      rw [List.foldl_nil, hnil, Option.map_id']
  | append_singleton visits visit ih =>
      rw [List.foldl_concat, describeVisit, Graph.get?_modify, ih, Option.map_map, pathsTo_concat]
      congr 1
      funext s
      rw [Function.comp_apply]
      split
      · exact describedStruct_concat ..
      · rfl

/-! ## The visits of chains -/

/-- The visits of the ends of chains, each under the path that its chain leads to. -/
def visitsAlong (path : String) (chains : List (List Field × StructId)) :
    List (StructId × String) :=
  chains.map fun x => (x.2, x.1.foldl outputPath path)

theorem path_along (p : Position) (chain : List Field) :
    (p.along chain).path = chain.foldl outputPath p.path := by
  induction chain generalizing p with
  | nil => rfl
  | cons f rest ih => rw [Position.along_cons, ih, List.foldl_cons, Position.below]

theorem visitsAlong_chainsThrough (path : String) (below : StructId → List (List Field × StructId))
    (h : f.nestedTarget? = some t) : visitsAlong path (Graph.chainsThrough below f) =
      visitsAlong (outputPath path f) (below t) := by
  rw [Graph.chainsThrough_of_opens below h, visitsAlong, List.map_map]
  rfl

/-- If the chains below each field are listed, those through all fields are. -/
theorem unfolds_filterMap {below : StructId → List (List Field × StructId)} {fields : List Field}
    (hbelow : ∀ f ∈ fields, ∀ t, f.nestedTarget? = some t →
      (structWalk g).Unfolds [(t, outputPath path f)] (visitsAlong (outputPath path f) (below t))) :
    (structWalk g).Unfolds (fields.filterMap fun f => f.nestedTarget?.map (·, outputPath path f))
      (visitsAlong path (fields.flatMap (Graph.chainsThrough below))) := by
  induction fields with
  | nil => exact .nil
  | cons f rest ih =>
      obtain ⟨hfirst, hrest⟩ := List.forall_mem_cons.1 hbelow
      cases hopens : f.nestedTarget? with
      | none =>
          rw [List.filterMap_cons, hopens, List.flatMap_cons, Graph.chainsThrough_of_none _ hopens]
          exact ih hrest
      | some t =>
          rw [List.filterMap_cons, hopens, List.flatMap_cons, visitsAlong, List.map_append,
            ← visitsAlong, ← visitsAlong, visitsAlong_chainsThrough path _ hopens]
          exact (hfirst t hopens).append (ih hrest)

/-- Unfolding the walk over structs lists the chains. -/
theorem unfolds_structWalk {order : List StructId} (h : g.LinkOrder order)
    (hdepth : order.idxOf s < depth) (path : String) :
    (structWalk g).Unfolds [(s, path)] (visitsAlong path (g.chainsBelow depth s)) := by
  induction depth generalizing s path with
  | zero => exact absurd hdepth (Nat.not_lt_zero _)
  | succ depth ih =>
      have hbelow : (structWalk g).Unfolds ((structWalk g).below (s, path))
          (visitsAlong path
            ((g.fieldsAt s).flatMap (Graph.chainsThrough (g.chainsBelow depth)))) := by
        apply unfolds_filterMap
        intro f hf t hopens
        have hlt := h.idxOf_lt (Graph.linksTo_of_nestedTarget? hf hopens)
        exact ih (Nat.lt_of_lt_of_le hlt (Nat.le_of_lt_succ hdepth)) (outputPath path f)
      have hcons := PathWalk.Unfolds.cons hbelow .nil
      rw [List.append_nil] at hcons
      exact hcons

/-- Where paths tell chains apart, the overlay visits the ends of all chains in order. -/
theorem overlayVisits_eq_visitsAlong {order : List StructId} (h : g.LinkOrder order)
    (hdistinct : g.DistinctNames)
    (hdots : ∀ t ∈ g.structs, ∀ f ∈ t.fields, '.' ∉ f.outputName.toList) (root : StructId)
    (path : String) : overlayVisits g root path = visitsAlong path (g.chainsFrom root) := by
  have hchains := h.traversed_chainsFrom root
  have hdepth : order.idxOf root < g.size + 1 :=
    Nat.lt_succ_of_le (Nat.le_trans List.idxOf_le_length h.length_le_size)
  have hunfolds : (structWalk g).Unfolds [(root, path)] (visitsAlong path (g.chainsFrom root)) :=
    unfolds_structWalk h hdepth path
  have hnodup : ((visitsAlong path (g.chainsFrom root)).map (structWalk g).path).Nodup := by
    rw [visitsAlong, List.map_map, List.nodup_iff_pairwise_ne, List.pairwise_map]
    have hnames {x : List Field × StructId} (hx : x ∈ g.chainsFrom root) :
        ∀ f ∈ x.1, '.' ∉ f.outputName.toList := by
      intro f hf
      obtain ⟨t, ht, hmem⟩ := ((hchains.mem_iff x.1 x.2).1 hx).exists_struct f hf
      exact hdots t ht f hmem
    refine hchains.ordered.imp_of_mem fun {x y} hx hy hprecedes heq => ?_
    apply hdistinct.outputNames_ne_of_precedes hprecedes
    refine Position.outputNames_eq_of_path_eq (p := ⟨path, ""⟩) (hnames hx) (hnames hy) ?_
    rw [path_along, path_along]
    exact heq
  obtain ⟨v, hruns, hnodes⟩ := Reflection.exists_runs_structWalk h root path
  rw [← hnodes, (hruns.nodes_of_unfolds hunfolds hnodup fun _ _ => by simp).1, List.append_nil,
    List.reverse_reverse]

/-! ## Overlays -/

theorem get?_apply (r : DocRegistry) (g : Graph) (root : StructId) (hpath : Text.trim rootPath ≠ "")
    (id : StructId) : (r.apply g root rootPath).get? id =
      (g.get? id).map
        (describedStruct r (pathsTo (overlayVisits g root (Text.trim rootPath)) id)) := by
  rw [apply_eq_foldl, if_neg fun hempty => hpath (String.isEmpty_iff.1 hempty),
    get?_foldl_describeVisit]

/-- An overlay that is put on once more changes nothing. -/
theorem apply_apply (r : DocRegistry) (g : Graph) (root : StructId) (rootPath : String) :
    r.apply (r.apply g root rootPath) root rootPath = r.apply g root rootPath := by
  by_cases hpath : Text.trim rootPath = ""
  · rw [apply_eq_foldl, if_pos (String.isEmpty_iff.2 hpath)]
  · have hsame (g : Graph) : g.SameUpTo .unnoted (r.apply g root rootPath) :=
      sameUpTo_apply r g root rootPath
    have hvisits := overlayVisits_eq_of_sameUpTo (hsame g).core_of_unnoted root (Text.trim rootPath)
    refine Graph.ext_get? (hsame _).index fun id => ?_
    rw [get?_apply r _ root hpath, hvisits, get?_apply r g root hpath, Option.map_map]
    congr 1
    funext s
    exact describedStruct_idem ..

/-- On a graph that was reflected, whatever has been marked and put on since, an overlay follows the
chains from its root.  If output names are different within each struct and have no dots, every
struct and every field gets the texts of the last of its chains whose path is described and keeps
its own without one.  Nothing else changes, and nothing changes the second time. -/
theorem after_apply_describes (c : Catalog) (calls : List Call) (marked : List StructId) {g : Graph}
    (hg : (marked.foldl Graph.markTop (after c calls).graph).SameUpTo .core g)
    (hdistinct : g.DistinctNames)
    (hdots : ∀ t ∈ g.structs, ∀ f ∈ t.fields, '.' ∉ f.outputName.toList) (r : DocRegistry)
    (root : StructId) {rootPath : String} (hpath : Text.trim rootPath ≠ "") :
    let chains := g.chainsFrom root
    let g' := r.apply g root rootPath
    g.Traversed root chains ∧
    g'.index = g.index ∧
    (∀ id, g'.get? id = (g.get? id).map
      (describedStruct r (pathsTo (visitsAlong (Text.trim rootPath) chains) id))) ∧
    r.apply g' root rootPath = g' := by
  obtain ⟨order, horder⟩ := Reflection.Reflector.after_exists_linkOrder c calls
  replace horder := hg.linkOrder (horder.foldl_markTop marked)
  refine ⟨horder.traversed_chainsFrom root, (sameUpTo_apply r g root rootPath).index, fun id => ?_,
    apply_apply r g root rootPath⟩
  rw [get?_apply r g root hpath, overlayVisits_eq_visitsAlong horder hdistinct hdots]

/-- Of the three ways to a route, the first two are described. -/
theorem after_apply_describes_route :
    let g := (after Reflection.Reflector.routeCatalog [.reflect "Domain"]).graph
    let docs : DocRegistry :=
      ⟨[⟨{ path := "domain.network.default.gateway", description := "The gateway of a network." },
         "network.yaml"⟩,
        ⟨{ path := "domain.primary.gateway", description := "The first gateway."
           reference := "gateway.html" }, "domain.yaml"⟩]⟩
    g.DistinctNames ∧ (∀ t ∈ g.structs, ∀ f ∈ t.fields, '.' ∉ f.outputName.toList) ∧
      Text.trim " domain" ≠ "" ∧
      pathsTo (visitsAlong "domain" (g.chainsFrom 0)) 2 =
        ["domain.network.default", "domain.primary", "domain.backup"] ∧
      ∃ s, (docs.apply g 0 " domain").get? 2 = some s ∧ s.fields.map Texts.ofField =
        [⟨"The first gateway.", "The first gateway.\n\nSee: <gateway.html>"⟩] := by
  intro g docs
  have hpath : Text.trim " domain" ≠ "" := by decide +kernel
  have htrim : Text.trim " domain" = "domain" := by decide +kernel
  obtain ⟨hdistinct, hdots, hpaths, s, hs, hfields⟩ :
      g.DistinctNames ∧ (∀ t ∈ g.structs, ∀ f ∈ t.fields, '.' ∉ f.outputName.toList) ∧
        pathsTo (visitsAlong "domain" (g.chainsFrom 0)) 2 =
          ["domain.network.default", "domain.primary", "domain.backup"] ∧
        ∃ s, g.get? 2 = some s ∧ (describedStruct docs
          ["domain.network.default", "domain.primary", "domain.backup"] s).fields.map
            Texts.ofField =
          [⟨"The first gateway.", "The first gateway.\n\nSee: <gateway.html>"⟩] := by
    rw [Graph.DistinctNames]
    decide +kernel
  obtain ⟨-, -, htexts, -⟩ := after_apply_describes Reflection.Reflector.routeCatalog
    [.reflect "Domain"] [] (.refl g) hdistinct hdots docs 0 hpath
  have hroute := htexts 2
  rw [htrim, hpaths, hs] at hroute
  exact ⟨hdistinct, hdots, hpath, hpaths, _, hroute, hfields⟩

end RecordSchema.Generation
