import Mathlib.Data.List.Basic
import Mathlib.Data.List.Perm.Subperm
import Mathlib.Logic.Relation
import RecordSchema.Proofs.Schema.Index

/-!
# Links between structs

A struct links to the structs its fields refer to, whatever their patterns.  A *link order* lists
structs so that every link leads to an earlier one; a graph that has one keeps its links within
itself and has no cycles.  The order is kept by adding a struct without fields, and it gains a
struct that gets fields which refer to structs in the order.
-/

namespace RecordSchema.Schema.Graph

variable {g : Graph} {order : List StructId} {s t id : StructId}

theorem fieldsAt_of_get? {t : Struct} (h : g.get? s = some t) : g.fieldsAt s = t.fields := by
  rw [fieldsAt, h]
  rfl

theorem mem_fieldsAt_iff {f : Field} : f ∈ g.fieldsAt s ↔ ∃ t, g.get? s = some t ∧ f ∈ t.fields := by
  rw [fieldsAt]
  cases g.get? s with
  | none => simp
  | some t => simp

/-- A field of the struct at `s` refers to the struct at `t`. -/
def LinksTo (g : Graph) (s t : StructId) : Prop := ∃ f ∈ g.fieldsAt s, f.target? = some t

theorem linksTo_of_nestedTarget? {f : Field} (hf : f ∈ g.fieldsAt s)
    (ht : f.nestedTarget? = some t) : g.LinksTo s t := by
  rw [Field.nestedTarget?] at ht
  split at ht
  · exact ⟨f, hf, ht⟩
  · cases ht

/-- An order of structs in which every link leads to an earlier one. -/
structure LinkOrder (g : Graph) (order : List StructId) : Prop where
  nodup : order.Nodup
  lt_size : ∀ id ∈ order, id < g.size
  earlier : ∀ s t, g.LinksTo s t → ∃ before behind, order = before ++ s :: behind ∧ t ∈ before

namespace LinkOrder

theorem target_mem (h : g.LinkOrder order) (hlink : g.LinksTo s t) : t ∈ order := by
  obtain ⟨before, behind, rfl, ht⟩ := h.earlier s t hlink
  exact List.mem_append_left _ ht

theorem source_mem (h : g.LinkOrder order) (hlink : g.LinksTo s t) : s ∈ order := by
  obtain ⟨before, behind, rfl, -⟩ := h.earlier s t hlink
  simp

theorem target_lt_size (h : g.LinkOrder order) (hlink : g.LinksTo s t) : t < g.size :=
  h.lt_size t (h.target_mem hlink)

theorem idxOf_lt (h : g.LinkOrder order) (hlink : g.LinksTo s t) :
    order.idxOf t < order.idxOf s := by
  have hnodup := h.nodup
  obtain ⟨before, behind, rfl, ht⟩ := h.earlier s t hlink
  have hs : s ∉ before := fun hs =>
    (List.nodup_append.1 hnodup).2.2 s hs s (List.mem_cons_self ..) rfl
  rw [List.idxOf_append_of_mem ht, List.idxOf_append_of_notMem hs, List.idxOf_cons_self,
    Nat.add_zero]
  exact List.idxOf_lt_length_iff.2 ht

theorem idxOf_lt_of_transGen (h : g.LinkOrder order) (hlink : Relation.TransGen g.LinksTo s t) :
    order.idxOf t < order.idxOf s := by
  induction hlink with
  | single hlink => exact h.idxOf_lt hlink
  | tail _ hlink ih => exact Nat.lt_trans (h.idxOf_lt hlink) ih

/-- No chain of links returns to its start. -/
theorem acyclic (h : g.LinkOrder order) (id : StructId) : ¬Relation.TransGen g.LinksTo id id :=
  fun hcycle => Nat.lt_irrefl _ (h.idxOf_lt_of_transGen hcycle)

/-- There are no more structs in the order than in the graph. -/
theorem length_le_size (h : g.LinkOrder order) : order.length ≤ g.size := by
  have hsubset : order ⊆ List.range g.size := fun id hid => List.mem_range.2 (h.lt_size id hid)
  have hlength := (List.subperm_of_subset h.nodup hsubset).length_le
  rwa [List.length_range] at hlength

/-- A graph without further links has the same order. -/
theorem of_linksTo {g' : Graph} (h : g.LinkOrder order) (hsize : g'.size = g.size)
    (hlinks : ∀ s t, g'.LinksTo s t → g.LinksTo s t) : g'.LinkOrder order where
  nodup := h.nodup
  lt_size id hid := hsize.symm ▸ h.lt_size id hid
  earlier s t hlink := h.earlier s t (hlinks s t hlink)

end LinkOrder

/-! ## Graphs that grow -/

theorem linkOrder_empty : empty.LinkOrder [] where
  nodup := List.nodup_nil
  lt_size := by simp
  earlier := by
    rintro s t ⟨f, hf, -⟩
    cases hf

theorem fieldsAt_insert {t : Struct} (h : g.lookup t.name = none) (ht : t.fields = [])
    (id : StructId) : (g.insert t).2.fieldsAt id = g.fieldsAt id := by
  rw [insert_of_lookup_eq_none h, fieldsAt, get?, fieldsAt, get?, List.getElem?_append]
  split
  · rfl
  · rename_i hid
    rw [List.getElem?_singleton, List.getElem?_eq_none (Nat.le_of_not_lt hid)]
    split
    · exact ht
    · rfl

theorem LinkOrder.insert (h : g.LinkOrder order) {t : Struct} (hfresh : g.lookup t.name = none)
    (ht : t.fields = []) : (g.insert t).2.LinkOrder order where
  nodup := h.nodup
  lt_size id hid := by
    have hlt := h.lt_size id hid
    rw [size] at hlt ⊢
    rw [insert_of_lookup_eq_none hfresh, List.length_append]
    exact Nat.lt_add_right _ hlt
  earlier a b hlink := by
    rw [LinksTo, fieldsAt_insert hfresh ht] at hlink
    exact h.earlier a b hlink

theorem fieldsAt_modify (hid : id < g.size) (fields : List Field) (id' : StructId) :
    (g.modify id fun t => { t with fields }).fieldsAt id' =
      if id' = id then fields else g.fieldsAt id' := by
  rw [fieldsAt, get?_modify, fieldsAt]
  split
  · rename_i heq
    subst heq
    obtain ⟨t, ht⟩ := get?_eq_some_iff_lt.2 hid
    rw [ht, Option.map_some, if_pos rfl]
    rfl
  · rename_i hne
    rw [if_neg fun heq => hne heq.symm, Option.map_id']

/-- A struct that is not in the order is added to it with fields that refer to structs in it. -/
theorem LinkOrder.fill (h : g.LinkOrder order) (hid : id < g.size) (hnew : id ∉ order)
    {fields : List Field} (hfields : ∀ f ∈ fields, ∀ t, f.target? = some t → t ∈ order) :
    (g.modify id fun t => { t with fields }).LinkOrder (order ++ [id]) where
  nodup := by
    refine List.nodup_append.2 ⟨h.nodup, by simp, fun a ha b hb hab => hnew ?_⟩
    rwa [← List.mem_singleton.1 hb, ← hab]
  lt_size a ha := by
    rw [size_modify]
    rcases List.mem_append.1 ha with ha | ha
    · exact h.lt_size a ha
    · rwa [List.mem_singleton.1 ha]
  earlier a b hlink := by
    rw [LinksTo, fieldsAt_modify hid] at hlink
    obtain ⟨f, hf, ht⟩ := hlink
    split at hf
    · rename_i heq
      exact ⟨order, [], by rw [heq], hfields f hf b ht⟩
    · obtain ⟨before, behind, horder, hb⟩ := h.earlier a b ⟨f, hf, ht⟩
      exact ⟨before, behind ++ [id], by rw [horder, List.append_assoc, List.cons_append], hb⟩

end RecordSchema.Schema.Graph
