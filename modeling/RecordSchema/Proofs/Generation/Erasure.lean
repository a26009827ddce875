import RecordSchema.Proofs.Generation.Batches
import RecordSchema.Proofs.Generation.Stages
import RecordSchema.Proofs.Schema.Erasure
import RecordSchema.Proofs.Schema.PathWalk

/-!
# What annotations leave alone

Paths, descriptions and reasons to leave something out are put on a graph that is traversed over and
over.  No traversal sees them: what it visits, and in which order, is settled by output names, node
names and links.  So two configurations of the same resources end alike, and what they report can
only differ in annotations and in what is told of them.
-/

namespace RecordSchema.Generation

open Docs (DocRegistry overlayVisits structWalk)
open Schema (Field Graph Struct StructId)

variable {c : Catalog} {g g' : Graph} {roots : List ResourceRoot} {config config' : Generator}

/-! ## Traversals -/

theorem reached_eq_of_sameUpTo (h : g.SameUpTo .core g') (roots : List StructId) :
    g'.reached roots = g.reached roots := by
  refine congrArg (List.map Prod.fst) (Graph.firstVisits_congr (fun a => ?_) [] _)
  have hnested := h.filterMap_fieldsAt Field.nestedTarget? (fun _ => rfl) a.1
  have hsuccessors (g : Graph) :
      g.successors (fun s () => (Graph.nestedTargets s).map (·, ())) a =
        ((g.fieldsAt a.1).filterMap Field.nestedTarget?).map (·, ()) := by
    rw [Graph.successors, Graph.fieldsAt]
    cases g.get? a.1 <;> rfl
  rw [hsuccessors, hsuccessors, hnested]

theorem overlayVisits_eq_of_sameUpTo (h : g.SameUpTo .core g') (root : StructId) (path : String) :
    overlayVisits g' root path = overlayVisits g root path := by
  have hwalk : structWalk g' = structWalk g := by
    rw [structWalk, structWalk]
    congr 1
    funext ⟨id, path⟩
    exact h.filterMap_fieldsAt _ (fun _ => rfl) id
  rw [overlayVisits, overlayVisits, hwalk, h.size_eq]

/-! ## Coverage -/

/-- The field where it is reached, without annotations. -/
def PlacedField.core (p : PlacedField) : PlacedField := ⟨p.field.core, p.position⟩

theorem placedFields_mapStructs (g : Graph) (id : StructId) (p : Position) :
    placedFields (g.mapStructs (Struct.erased .core)) id p =
      (placedFields g id p).map PlacedField.core := by
  rw [placedFields, Graph.fieldsAt_mapStructs fun _ => rfl, placedFields, List.map_map,
    List.map_map]
  rfl

/-- The walk over a graph without annotations is the walk over the graph. -/
theorem reachedFields_mapStructs (g : Graph) (root : PathRoot) :
    reachedFields (g.mapStructs (Struct.erased .core)) root =
      (reachedFields g root).map PlacedField.core := by
  have hpath (a : PlacedField) :
      (fieldWalk (g.mapStructs (Struct.erased .core))).path a.core = (fieldWalk g).path a := rfl
  have hbelow (a : PlacedField) : (fieldWalk (g.mapStructs (Struct.erased .core))).below a.core =
      ((fieldWalk g).below a).map PlacedField.core := by
    have hopens : a.core.field.nestedTarget? = a.field.nestedTarget? := rfl
    simp only [fieldWalk, hopens]
    cases a.field.nestedTarget? with
    | none => rfl
    | some id => exact placedFields_mapStructs g id a.position
  rw [reachedFields, placedFields_mapStructs, Graph.size_mapStructs]
  exact Schema.PathWalk.visits_map hpath hbelow ..

theorem collectFields_mapStructs (g : Graph) (root : PathRoot) (registry : Option DocRegistry) :
    collectFields (g.mapStructs (Struct.erased .core)) root registry =
      collectFields g root registry := by
  rw [collectFields, reachedFields_mapStructs, List.filter_map, List.map_map]
  rfl

theorem collectFields_eq_of_sameUpTo (h : g.SameUpTo .core g') (root : PathRoot)
    (registry : Option DocRegistry) :
    collectFields g' root registry = collectFields g root registry := by
  rw [← collectFields_mapStructs g', h.mapStructs_erased_eq, collectFields_mapStructs]

/-! ## Totals -/

/-- Only the number of structs that are left out depends on annotations. -/
theorem ofStructs_map {change : Struct → Struct} {erase : Field → Field}
    (hfields : ∀ s, (change s).fields = s.fields.map erase)
    (htop : ∀ s, (change s).isTopLevel = s.isTopLevel) (hcycle : ∀ f, (erase f).isCycle = f.isCycle)
    (structs : List Struct) :
    Totals.ofStructs (structs.map change) =
      { Totals.ofStructs structs with
        excluded := structs.countP fun s => (change s).isExcluded } := by
  have hall : (structs.map change).flatMap (·.fields) =
      (structs.flatMap (·.fields)).map erase := by
    rw [List.flatMap_map, List.map_flatMap]
    exact congrArg (structs.flatMap ·) (funext hfields)
  have hcycles : Field.isCycle ∘ erase = Field.isCycle := funext hcycle
  have htops : (fun s : Struct => s.isTopLevel) ∘ change = (·.isTopLevel) := funext htop
  rw [Totals.ofStructs, Totals.ofStructs, hall, List.length_map, List.length_map, List.countP_map,
    List.countP_map, List.countP_map, hcycles, htops]
  rfl

/-! ## Two runs -/

/-- Two runs end alike: with the same error, or both with a result. -/
inductive EndAlike (R : Run → Run → Prop) :
    Except GenerationError Run → Except GenerationError Run → Prop
  | error (e : GenerationError) : EndAlike R (.error e) (.error e)
  | ok {run run' : Run} (h : R run run') : EndAlike R (.ok run) (.ok run')

/-- Configurations of the same resources reflect the same roots and the same graph, if any. -/
theorem Generator.run_endAlike {R : Run → Run → Prop}
    (hresources : config'.resources = config.resources)
    (h : ∀ roots, R (config.report roots (config.annotate roots (resourceGraph c roots)))
      (config'.report roots (config'.annotate roots (resourceGraph c roots)))) :
    EndAlike R (config.run c) (config'.run c) := by
  rw [run_eq, run_eq, hresources]
  cases hreflected : reflected config.resources c with
  | error e => exact .error e
  | ok out =>
      obtain ⟨roots, g⟩ := out
      obtain ⟨-, rfl, -⟩ := reflected_of_ok hreflected
      exact .ok (h roots)

end RecordSchema.Generation
