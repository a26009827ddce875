import RecordSchema.Proofs.Generation.Erasure

/-!
# Documentation

A registry puts descriptions on a graph and takes what it documents out of the reports.  A run with
a registry is the run without one in all other respects.
-/

namespace RecordSchema.Generation

open Docs (DocRegistry describeField describeStruct)
open Schema (Field Graph Struct StructId)

variable {c : Catalog} {config : Generator} {g : Graph} {roots : List ResourceRoot}

/-! ## Descriptions -/

theorem undescribed_describeField (r : DocRegistry) (path : String) (f : Field) :
    (describeField r path f).undescribed = f.undescribed := by
  rw [describeField]
  split <;> rfl

theorem undescribed_describeStruct (r : DocRegistry) (path : String) (s : Struct) :
    (describeStruct r path s).undescribed = s.undescribed := by
  have hfields : Field.undescribed ∘ describeField r path = Field.undescribed :=
    funext (undescribed_describeField r path)
  rw [describeStruct]
  split <;> simp [Struct.undescribed, List.map_map, hfields]

/-- A registry changes nothing but descriptions. -/
theorem mapStructs_apply (r : DocRegistry) (g : Graph) (root : StructId) (path : String) :
    (r.apply g root path).mapStructs Struct.undescribed = g.mapStructs Struct.undescribed := by
  rw [DocRegistry.apply]
  split
  · rfl
  · refine Graph.foldl_invariant (·.mapStructs Struct.undescribed) ?_ _ g
    rintro g ⟨id, path⟩
    exact Graph.mapStructs_modify_of_eq (undescribed_describeStruct r path) g id

namespace Generator

/-- The configuration without documentation. -/
def undocumented (config : Generator) : Generator := { config with docs := .empty }

theorem mapStructs_annotate (config : Generator) (roots : List ResourceRoot) (g : Graph) :
    (config.annotate roots g).mapStructs Struct.undescribed =
      (config.undocumented.annotate roots g).mapStructs Struct.undescribed := by
  have hdocs (docs : DocRegistry) (g : Graph) :
      (roots.foldl (fun g r => docs.apply g r.id r.resource.name) g).mapStructs
        Struct.undescribed = g.mapStructs Struct.undescribed := by
    refine Graph.foldl_invariant (·.mapStructs Struct.undescribed) ?_ roots g
    intro g r
    exact mapStructs_apply ..
  rw [annotate, annotate, hdocs, hdocs]
  rfl

end Generator

/-! ## Reports -/

/-- Of what is reported without documentation, the documented is left out. -/
theorem collectFields_eq_filter (g : Graph) (root : PathRoot) (r : DocRegistry) :
    collectFields g root (some r) =
      (collectFields g root (some .empty)).filter fun x => !r.contains x.path := by
  have hnone : (fun p : PlacedField => !p.isDocumented (some .empty)) = fun _ => true := rfl
  rw [collectFields, collectFields, hnone, List.filter_true, List.filter_map]
  rfl

/-! ## Runs -/

/-- What a run with documentation shares with the run without: all but descriptions, and the reports
but for what is documented. -/
structure Run.Documents (docs : DocRegistry) (plain run : Run) : Prop where
  roots : run.roots = plain.roots
  structs : run.structs = plain.structs
  totals : run.totals = plain.totals
  /-- But for descriptions the graphs are the same. -/
  graph : run.graph.mapStructs Struct.undescribed = plain.graph.mapStructs Struct.undescribed
  /-- The fields that are not documented are reported in the same order. -/
  batches : run.batches.flatten = plain.batches.flatten.filter fun x => !docs.contains x.path

theorem documents_report (config : Generator) (roots : List ResourceRoot) (g : Graph) :
    Run.Documents config.docs
      (config.undocumented.report roots (config.undocumented.annotate roots g))
      (config.report roots (config.annotate roots g)) := by
  have hgraph := config.mapStructs_annotate roots g
  have hsame := (Graph.SameUpTo.of_mapStructs_eq Struct.erased_undescribed hgraph).core_of_unnoted
  have hstructs := reached_eq_of_sameUpTo hsame (roots.map (·.id))
  refine ⟨rfl, hstructs, ?_, hgraph, ?_⟩
  · -- what is counted does not depend on descriptions
    have htotals (g : Graph) (ids : List StructId) : Totals.ofStructs (ids.filterMap g.get?) =
        .ofStructs (ids.filterMap (g.mapStructs Struct.undescribed).get?) := by
      have hfields (s : Struct) : s.undescribed.fields = s.fields.map Field.undescribed := rfl
      rw [Graph.filterMap_get?_mapStructs, ofStructs_map hfields (fun _ => rfl) fun _ => rfl]
      rfl
    rw [Generator.report, Generator.report, htotals, hgraph, ← htotals, hstructs]
  · rw [Generator.report, Generator.report, flatten_buildBatches, flatten_buildBatches,
      ← sortByPath_filter, List.filter_flatMap]
    refine congrArg (fun collect => sortByPath (roots.flatMap collect)) (funext fun root => ?_)
    rw [collectFields_eq_of_sameUpTo hsame, collectFields_eq_filter]
    rfl

/-- Documentation never changes the schema: with a registry and without one a run fails with the
same error or succeeds with the same roots, structs, totals and, but for descriptions, the same
graph.  The batches hold what they hold without documentation, in the same order, except for what
the registry documents. -/
theorem Generator.run_documents (config : Generator) (c : Catalog) :
    EndAlike (Run.Documents config.docs) ({ config with docs := .empty }.run c) (config.run c) :=
  run_endAlike rfl fun roots => documents_report config roots (resourceGraph c roots)

end RecordSchema.Generation
