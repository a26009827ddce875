import RecordSchema.Docs.Overlay
import RecordSchema.Generation.Coverage
import RecordSchema.Proofs.Reflection.Refinement
import RecordSchema.Proofs.Schema.Links
import RecordSchema.Proofs.Schema.PathWalk

/-!
# Links of reflected graphs

A record leaves once everything it refers to has left or leads back, and an embedded record gives
its links away only when it has left itself.  So the order in which the records leave is a link
order: reflected graphs have no cycles, and the walks along paths come to an end on them.
-/

namespace RecordSchema.Reflection

open Docs (overlayVisits structWalk)
open Generation (PathRoot PlacedField fieldWalk placedFields reachedFields)
open Schema (Field Graph StructId)

variable {g : Graph} {order : List StructId}

/-! ## The order in which records leave -/

/-- The fields of a step refer to what its reference leads to, or to what a struct refers to
already. -/
theorem target_of_mem_finishedFields {guard : CycleGuard} {owner : String} {step : BodyStep}
    {f : Field} {t : StructId} (hf : f ∈ finishedFields g guard owner step)
    (ht : f.target? = some t) :
    (∃ name, step.reference? = some name ∧ name ∉ guard.names ∧ g.lookup name = some t) ∨
      ∃ s, g.LinksTo s t := by
  rw [finishedFields] at hf
  rw [BodyStep.reference?]
  cases hitem : step.item with
  | field decl tag shape =>
      rw [hitem] at hf
      rw [Field.target?, link_of_mem_finishField hf] at ht
      exact .inl (exists_lookup_of_target?_fieldOf ht)
  | embed record =>
      rw [hitem] at hf
      simp only at hf
      split at hf
      · cases hf
      · cases hs : g.find? record with
        | none =>
            rw [hs] at hf
            cases hf
        | some struct =>
            rw [hs] at hf
            obtain ⟨e, he, rfl⟩ := List.mem_map.1 hf
            rw [Field.target?, overrideField_link] at ht
            obtain ⟨s, -, hid⟩ := Option.bind_eq_some_iff.1 hs
            refine .inr ⟨s, e, ?_, ht⟩
            rwa [Graph.fieldsAt, hid]

/-- The record of a struct is not under analysis any more. -/
def HasLeft (s : WalkState) (frames : List Frame) (id : StructId) : Prop :=
  ∃ f, frames[id]? = some f ∧ f.name ∉ s.guard.names

namespace Grown

variable {c : Catalog} {known : RecordDecl → Prop} {s : WalkState} {frames : List Frame}

theorem hasLeft_enter_iff (h : Grown c known s frames) {r : RecordDecl}
    (hfresh : s.graph.lookup r.name = none) (id : StructId) :
    HasLeft ⟨(s.graph.insert (placeholder c r)).2, s.guard.push r.name⟩
      (frames ++ [⟨r, s.guard.push r.name⟩]) id ↔ HasLeft s frames id := by
  constructor
  · rintro ⟨f, hf, hclosed⟩
    rw [CycleGuard.names_push, List.mem_append, List.mem_singleton, not_or] at hclosed
    rw [List.getElem?_append] at hf
    split at hf
    · exact ⟨f, hf, hclosed.1⟩
    · rw [List.getElem?_singleton] at hf
      split at hf
      · cases hf
        exact absurd rfl hclosed.2
      · cases hf
  · rintro ⟨f, hf, hclosed⟩
    have hlt := (List.getElem?_eq_some_iff.1 hf).1
    refine ⟨f, (List.getElem?_append_left hlt).trans hf, ?_⟩
    rw [CycleGuard.names_push, List.mem_append, List.mem_singleton, not_or]
    refine ⟨hclosed, fun hname => h.indexed.lookup_eq_none_iff.1 hfresh ?_⟩
    rw [← hname]
    exact h.mem_names (List.mem_of_getElem? hf)

theorem hasLeft_leave_iff (h : Grown c known s frames) {f : Frame} {id : StructId}
    (hf : frames[id]? = some f) (hguard : f.guard = s.guard) (g : Graph) (id' : StructId) :
    HasLeft ⟨g, s.guard.popped⟩ frames id' ↔ HasLeft s frames id' ∨ id' = id := by
  have hmem := List.mem_of_getElem? hf
  constructor
  · rintro ⟨f', hf', hclosed⟩
    by_cases hopen : f'.name ∈ s.guard.names
    · obtain rfl := h.eq_of_notMem_popped hmem hguard (List.mem_of_getElem? hf') hopen hclosed
      have hlookup := h.lookup_eq hf'
      rw [h.lookup_eq hf] at hlookup
      exact .inr (Option.some.inj hlookup).symm
    · exact .inl ⟨f', hf', hopen⟩
  · rintro (⟨f', hf', hclosed⟩ | rfl)
    · exact ⟨f', hf', fun hpopped => hclosed ((h.mem_popped_iff hmem hguard).1 hpopped).1⟩
    · exact ⟨f, hf, fun hpopped => ((h.mem_popped_iff hmem hguard).1 hpopped).2 rfl⟩

/-- The records that have left are in a link order. -/
theorem exists_linkOrder (h : Grown c known s frames) :
    ∃ order, s.graph.LinkOrder order ∧ ∀ id, id ∈ order ↔ HasLeft s frames id := by
  induction h with
  | start => exact ⟨[], Graph.linkOrder_empty, by simp [HasLeft]⟩
  | enter h _ hfresh _ ih =>
      obtain ⟨order, horder, hmem⟩ := ih
      refine ⟨order, horder.insert hfresh rfl, fun id => ?_⟩
      rw [hmem, h.hasLeft_enter_iff hfresh]
  | @leave s frames f id h hf hguard _ ih =>
      obtain ⟨order, horder, hmem⟩ := ih
      have hid : id < s.graph.size := h.size_eq ▸ (List.getElem?_eq_some_iff.1 hf).1
      have hnew : id ∉ order := fun hin => by
        obtain ⟨f', hf', hclosed⟩ := (hmem id).1 hin
        rw [hf] at hf'
        obtain rfl := Option.some.inj hf'
        exact hclosed (hguard ▸ h.name_mem_guard (List.mem_of_getElem? hf))
      refine ⟨order ++ [id], horder.fill hid hnew fun e he t ht => ?_, fun id' => ?_⟩
      · -- an own reference leads to a record that has left, a copied one to where one led before
        obtain ⟨step, -, he⟩ := List.mem_flatMap.1 he
        rcases target_of_mem_finishedFields he ht with ⟨name, -, hoff, hlookup⟩ | ⟨a, hlink⟩
        · obtain ⟨f', hf', rfl⟩ := h.exists_frame hlookup
          exact (hmem t).2 ⟨f', hf', hguard ▸ hoff⟩
        · exact horder.target_mem hlink
      · rw [List.mem_append, List.mem_singleton, hmem, h.hasLeft_leave_iff hf hguard]

end Grown

theorem Reflector.after_exists_linkOrder (c : Catalog) (calls : List Call) :
    ∃ order, (after c calls).graph.LinkOrder order := by
  rcases after_grown (c := c) (fun _ _ => trivial) calls
    (fun _ _ => trivial) with ⟨frames, h⟩
  obtain ⟨order, horder, -⟩ := h.exists_linkOrder
  exact ⟨order, horder⟩

/-! ## Walks along paths -/

/-- A field's rank is larger than those of the fields below it. -/
def fieldRank (order : List StructId) (p : PlacedField) : Nat :=
  p.field.nestedTarget?.elim 0 fun id => order.idxOf id + 1

/-- The rank of a field is at most its struct's place in the order. -/
theorem fieldRank_le (h : g.LinkOrder order) {id : StructId} {position : Generation.Position}
    {p : PlacedField} (hp : p ∈ placedFields g id position) :
    fieldRank order p ≤ order.idxOf id := by
  obtain ⟨f, hf, rfl⟩ := List.mem_map.1 hp
  rw [fieldRank]
  cases ht : f.nestedTarget? with
  | none => exact Nat.zero_le _
  | some t => exact h.idxOf_lt (Graph.linksTo_of_nestedTarget? hf ht)

theorem fieldRank_lt_size (h : g.LinkOrder order) {id : StructId} {position : Generation.Position}
    {p : PlacedField} (hp : p ∈ placedFields g id position) : fieldRank order p < g.size := by
  obtain ⟨f, hf, rfl⟩ := List.mem_map.1 hp
  rw [fieldRank]
  cases ht : f.nestedTarget? with
  | none =>
      obtain ⟨s, hs, -⟩ := Graph.mem_fieldsAt_iff.1 hf
      exact Nat.zero_lt_of_lt (Graph.get?_eq_some_iff_lt.1 ⟨s, hs⟩)
  | some t =>
      have hlink := Graph.linksTo_of_nestedTarget? hf ht
      have hlt := List.idxOf_lt_length_iff.2 (h.source_mem hlink)
      exact Nat.lt_of_le_of_lt (h.idxOf_lt hlink) (Nat.lt_of_lt_of_le hlt h.length_le_size)

/-- The walk over the fields below a root comes to an end, where the bounded walk does. -/
theorem exists_runs_fieldWalk (h : g.LinkOrder order) (root : PathRoot) :
    ∃ v, (fieldWalk g).Runs (placedFields g root.id root.position) {} v ∧
      v.nodes.reverse = reachedFields g root := by
  refine ⟨_, Schema.PathWalk.runs_visit (fieldRank order) (fun p q hq => ?_)
    (fun p hp => fieldRank_lt_size h hp) {}, rfl⟩
  rw [fieldWalk] at hq
  simp only at hq
  cases ht : p.field.nestedTarget? with
  | none =>
      rw [ht] at hq
      cases hq
  | some t =>
      rw [ht] at hq
      have hp : fieldRank order p = order.idxOf t + 1 := by
        rw [fieldRank, ht]
        rfl
      rw [hp]
      exact Nat.lt_succ_of_le (fieldRank_le h hq)

/-- The walk over the structs below a root comes to an end, where the bounded walk does. -/
theorem exists_runs_structWalk (h : g.LinkOrder order) (root : StructId) (path : String) :
    ∃ v, (structWalk g).Runs [(root, path)] {} v ∧ v.nodes.reverse = overlayVisits g root path := by
  refine ⟨_, Schema.PathWalk.runs_visit (fun a => order.idxOf a.1) (fun a b hb => ?_)
    (fun a ha => ?_) {}, rfl⟩
  · obtain ⟨f, hf, hmap⟩ := List.mem_filterMap.1 hb
    obtain ⟨t, ht, rfl⟩ := Option.map_eq_some_iff.1 hmap
    exact h.idxOf_lt (Graph.linksTo_of_nestedTarget? hf ht)
  · rw [List.mem_singleton.1 ha]
    exact Nat.lt_succ_of_le (Nat.le_trans List.idxOf_le_length h.length_le_size)

/-- After any calls the links stay within the graph and run in no circle, so that the walks along
paths, without any bound, come to an end from every root, and the bounded ones leave nothing out. -/
theorem Reflector.after_links_acyclic (c : Catalog) (calls : List Call) :
    (∀ s t, (after c calls).graph.LinksTo s t → t < (after c calls).graph.size) ∧
    (∀ id, ¬Relation.TransGen (after c calls).graph.LinksTo id id) ∧
    (∀ root : PathRoot, ∃ v,
      (fieldWalk (after c calls).graph).Runs
        (placedFields (after c calls).graph root.id root.position) {} v ∧
      v.nodes.reverse = reachedFields (after c calls).graph root) ∧
    ∀ root path, ∃ v,
      (structWalk (after c calls).graph).Runs [(root, path)] {} v ∧
      v.nodes.reverse = overlayVisits (after c calls).graph root path := by
  obtain ⟨order, h⟩ := after_exists_linkOrder c calls
  exact ⟨fun _ _ => h.target_lt_size, h.acyclic, exists_runs_fieldWalk h,
    exists_runs_structWalk h⟩

end RecordSchema.Reflection
