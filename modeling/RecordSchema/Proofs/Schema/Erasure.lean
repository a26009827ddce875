import RecordSchema.Proofs.Schema.Annotation

/-!
# Taking annotations off

An annotation is taken off a graph by taking it off every struct.  Two graphs that are the same
without an annotation stay so when both are changed in a way that neither reads nor writes it.
-/

namespace RecordSchema.Schema

/-- The field without descriptions. -/
def Field.undescribed (f : Field) : Field := { f with description := "", markdownDescription := "" }

/-- The field without a reason to leave it out. -/
def Field.unexcluded (f : Field) : Field := { f with exclusion := none }

/-- The struct without descriptions, also of its fields. -/
def Struct.undescribed (s : Struct) : Struct :=
  { s with
    fields := s.fields.map Field.undescribed, description := "", markdownDescription := "" }

/-- The struct without reasons to leave it or its fields out. -/
def Struct.unexcluded (s : Struct) : Struct :=
  { s with fields := s.fields.map Field.unexcluded, exclusion := none }

theorem Struct.erased_undescribed (s : Struct) :
    s.undescribed.erased .unnoted = s.erased .unnoted := by
  simp [undescribed, erased, List.map_map, Function.comp_def, Field.undescribed, Field.unnoted]

theorem Struct.erased_unexcluded (s : Struct) :
    s.unexcluded.erased .unnoted = s.erased .unnoted := by
  simp [unexcluded, erased, List.map_map, Function.comp_def, Field.unexcluded, Field.unnoted]

theorem Field.unexcluded_eq_self {f : Field} (h : f.exclusion = none) : f.unexcluded = f := by
  rw [unexcluded, ← h]

theorem Struct.unexcluded_eq_self {s : Struct} (hs : s.exclusion = none)
    (hfields : ∀ f ∈ s.fields, f.exclusion = none) : s.unexcluded = s := by
  have hmap : s.fields.map Field.unexcluded = s.fields :=
    (List.map_congr_left fun f hf => Field.unexcluded_eq_self (hfields f hf)).trans (List.map_id' _)
  rw [unexcluded, hmap, ← hs]

namespace Graph

variable {g g' : Graph} {change : Struct → Struct} {id : StructId}

/-- The graph with every struct changed. -/
def mapStructs (g : Graph) (change : Struct → Struct) : Graph :=
  { g with structs := g.structs.map change }

@[simp] theorem get?_mapStructs (g : Graph) (change : Struct → Struct) (id : StructId) :
    (g.mapStructs change).get? id = (g.get? id).map change := List.getElem?_map

@[simp] theorem size_mapStructs (g : Graph) (change : Struct → Struct) :
    (g.mapStructs change).size = g.size := List.length_map _

theorem mapStructs_self (h : ∀ s ∈ g.structs, change s = s) : g.mapStructs change = g :=
  congrArg (Graph.mk · g.index) ((List.map_congr_left h).trans (List.map_id' _))

theorem mapStructs_mapStructs (g : Graph) (change change' : Struct → Struct) :
    (g.mapStructs change).mapStructs change' = g.mapStructs (change' ∘ change) :=
  congrArg (Graph.mk · g.index) List.map_map

theorem filterMap_get?_mapStructs (g : Graph) (change : Struct → Struct) (ids : List StructId) :
    ids.filterMap (g.mapStructs change).get? = (ids.filterMap g.get?).map change := by
  rw [List.map_filterMap]
  exact List.filterMap_congr fun id _ => get?_mapStructs g change id

theorem fieldsAt_mapStructs {erase : Field → Field}
    (hfields : ∀ s, (change s).fields = s.fields.map erase) (g : Graph) (id : StructId) :
    (g.mapStructs change).fieldsAt id = (g.fieldsAt id).map erase := by
  rw [fieldsAt, get?_mapStructs, fieldsAt]
  cases g.get? id with
  | none => rfl
  | some s => exact hfields s

/-- A change of one struct and one of all structs can be swapped. -/
theorem mapStructs_modify {f f' : Struct → Struct} (h : ∀ s, change (f s) = f' (change s))
    (g : Graph) (id : StructId) :
    (g.modify id f).mapStructs change = (g.mapStructs change).modify id f' := by
  refine congrArg (Graph.mk · g.index) (List.ext_getElem? fun i => ?_)
  change ((g.modify id f).mapStructs change).get? i = ((g.mapStructs change).modify id f').get? i
  rw [get?_mapStructs, get?_modify, get?_modify, get?_mapStructs, Option.map_map, Option.map_map]
  congr 1
  funext s
  by_cases hi : id = i
  · simpa [hi] using h s
  · simp [hi]

/-- What is taken off everywhere does not show where it is put on. -/
theorem mapStructs_modify_of_eq {f : Struct → Struct} (h : ∀ s, change (f s) = change s)
    (g : Graph) (id : StructId) : (g.modify id f).mapStructs change = g.mapStructs change :=
  congrArg (Graph.mk · g.index) (map_structs_modify change g id f h)

theorem mapStructs_foldl {β : Type} {step : Graph → β → Graph}
    (h : ∀ g b, (step g b).mapStructs change = step (g.mapStructs change) b) (bs : List β)
    (g : Graph) : (bs.foldl step g).mapStructs change = bs.foldl step (g.mapStructs change) :=
  (List.foldl_hom (mapStructs · change) fun g b => (h g b).symm).symm

/-- What no step changes is as it was in the end. -/
theorem foldl_invariant {β γ : Type} {step : Graph → β → Graph} (p : Graph → γ)
    (h : ∀ g b, p (step g b) = p g) (bs : List β) (g : Graph) : p (bs.foldl step g) = p g := by
  induction bs generalizing g with
  | nil => rfl
  | cons b rest ih => exact (ih (step g b)).trans (h g b)

namespace SameUpTo

variable {erase : Field → Field}

theorem mapStructs (hchange : ∀ s, (change s).erased erase = s.erased erase) (g : Graph) :
    SameUpTo erase g (g.mapStructs change) where
  index := rfl
  structs := by
    rw [Graph.mapStructs, List.map_map]
    exact List.map_congr_left fun s _ => hchange s

theorem mapStructs_erased_eq (h : SameUpTo erase g g') :
    g'.mapStructs (Struct.erased erase) = g.mapStructs (Struct.erased erase) :=
  congrArg₂ Graph.mk h.structs h.index

/-- Graphs that are the same without an annotation are the same up to annotations. -/
theorem of_mapStructs_eq (hchange : ∀ s, (change s).erased erase = s.erased erase)
    (h : g'.mapStructs change = g.mapStructs change) : SameUpTo erase g g' where
  index := (congrArg Graph.index h :)
  structs := by
    have herased (g : Graph) : (g.structs.map change).map (Struct.erased erase) =
        g.structs.map (Struct.erased erase) := (SameUpTo.mapStructs hchange g).structs
    have hstructs : g'.structs.map change = g.structs.map change := (congrArg Graph.structs h :)
    rw [← herased g', hstructs, herased g]

end SameUpTo

end Graph

end RecordSchema.Schema
