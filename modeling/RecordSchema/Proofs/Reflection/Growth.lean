import RecordSchema.Proofs.Reflection.Resolve

/-!
# How a graph grows

Seen from outside a walk does two things.  A record comes under analysis, with a struct that has no
fields yet; the record under analysis before it refers to it.  Or the innermost record leaves, its
fields filled in from the structs of its references.  Each struct has a *frame* that remembers the
declaration and the names that were under analysis with it.
-/

namespace RecordSchema.Reflection

open Schema (Field Graph Struct StructId)

/-- A record that is or was under analysis. -/
structure Frame where
  decl : RecordDecl
  /-- The names under analysis with it, its own innermost. -/
  guard : CycleGuard

namespace Frame

def name (f : Frame) : String := f.decl.name

def references (f : Frame) : List String := Reflection.references f.decl.fields

/-- The fields the record has in a graph. -/
def fieldsIn (f : Frame) (g : Graph) : List Field := bodyFields g f.guard f.name f.decl.fields

end Frame

/-- The states that walks over known declarations pass, each with the frames of its structs. -/
inductive Grown (c : Catalog) (known : RecordDecl → Prop) : WalkState → List Frame → Prop
  | start : Grown c known {} []
  /-- A new record comes under analysis; the innermost record refers to it. -/
  | enter {s : WalkState} {frames : List Frame} {r : RecordDecl} (h : Grown c known s frames)
      (hknown : known r) (hfresh : s.graph.lookup r.name = none)
      (hasked : ∀ f ∈ frames, f.guard = s.guard → r.name ∈ f.references) :
      Grown c known ⟨(s.graph.insert (placeholder c r)).2, s.guard.push r.name⟩
        (frames ++ [⟨r, s.guard.push r.name⟩])
  /-- The innermost record leaves, its references all met. -/
  | leave {s : WalkState} {frames : List Frame} {f : Frame} {id : StructId}
      (h : Grown c known s frames) (hf : frames[id]? = some f) (hguard : f.guard = s.guard)
      (hmet : ∀ name ∈ f.references, name ∈ s.graph.names) :
      Grown c known
        ⟨s.graph.modify id fun t => { t with fields := f.fieldsIn s.graph }, s.guard.popped⟩ frames

/-- A struct without its fields. -/
def bare (t : Struct) : Struct := { t with fields := [] }

theorem names_modify_fields (g : Graph) (id : StructId) (fields : List Field) :
    (g.modify id fun t => { t with fields }).names = g.names :=
  Graph.names_modify g id (f := fun t => { t with fields }) fun _ => rfl

namespace Grown

variable {c : Catalog} {known : RecordDecl → Prop} {s : WalkState} {frames : List Frame}
  {f f' : Frame} {id : StructId} {name : String}

/-! ## Structs and frames -/

theorem indexed (h : Grown c known s frames) : s.graph.Indexed := by
  induction h with
  | start => exact Graph.indexed_empty
  | enter _ _ _ _ ih => exact ih.insert _
  | leave _ _ _ _ ih => exact ih.modify _ fun _ => rfl

/-- Up to its fields a struct is read off its declaration when the record comes under analysis. -/
theorem map_bare (h : Grown c known s frames) :
    s.graph.structs.map bare = frames.map fun f => placeholder c f.decl := by
  induction h with
  | start => rfl
  | enter _ _ hfresh _ ih =>
      rw [Graph.insert_of_lookup_eq_none hfresh, List.map_append, ih, List.map_append]
      rfl
  | @leave s _ f _ _ _ _ _ ih =>
      have hbare (t : Struct) : bare { t with fields := f.fieldsIn s.graph } = bare t := rfl
      exact (Graph.map_structs_modify bare _ _ _ hbare).trans ih

theorem get?_map_bare (h : Grown c known s frames) (id : StructId) :
    (s.graph.get? id).map bare = frames[id]?.map fun f => placeholder c f.decl := by
  rw [Graph.get?, ← List.getElem?_map, h.map_bare, List.getElem?_map]

theorem bare_eq (h : Grown c known s frames) (hf : frames[id]? = some f) {t : Struct}
    (ht : s.graph.get? id = some t) : bare t = placeholder c f.decl := by
  have hbare := h.get?_map_bare id
  rw [hf, ht] at hbare
  exact Option.some.inj hbare

/-- A struct's pattern is that of its declaration, also while the record is under analysis. -/
theorem pattern_eq (h : Grown c known s frames) (hf : frames[id]? = some f) {t : Struct}
    (ht : s.graph.get? id = some t) : t.pattern = structPattern f.decl.fields :=
  congrArg Struct.pattern (h.bare_eq hf ht)

theorem names_eq (h : Grown c known s frames) : s.graph.names = frames.map Frame.name := by
  have hmap := congrArg (List.map Struct.name) h.map_bare
  rwa [List.map_map, List.map_map] at hmap

theorem size_eq (h : Grown c known s frames) : s.graph.size = frames.length := by
  simpa [Graph.size] using congrArg List.length h.map_bare

theorem lookup_eq (h : Grown c known s frames) (hf : frames[id]? = some f) :
    s.graph.lookup f.name = some id := by
  rw [h.indexed f.name id, h.names_eq, List.getElem?_map, hf, Option.map_some]

theorem exists_frame (h : Grown c known s frames) (hid : s.graph.lookup name = some id) :
    ∃ f, frames[id]? = some f ∧ f.name = name := by
  rwa [h.indexed name id, h.names_eq, List.getElem?_map, Option.map_eq_some_iff] at hid

theorem exists_mem_frame (h : Grown c known s frames) (hname : name ∈ s.graph.names) :
    ∃ f ∈ frames, f.name = name := by
  rwa [h.names_eq, List.mem_map] at hname

/-- Every struct is found by its name and has a frame. -/
theorem exists_frame_of_mem (h : Grown c known s frames) {t : Struct} (ht : t ∈ s.graph.structs) :
    ∃ id f, frames[id]? = some f ∧ f.name = t.name ∧ s.graph.get? id = some t ∧
      s.graph.find? t.name = some t := by
  obtain ⟨id, hid⟩ := List.mem_iff_getElem?.1 ht
  have hlookup := h.indexed.lookup_name hid
  obtain ⟨f, hf, hname⟩ := h.exists_frame hlookup
  exact ⟨id, f, hf, hname, hid, (Graph.find?_eq_get? hlookup).trans hid⟩

theorem mem_names (h : Grown c known s frames) (hf : f ∈ frames) : f.name ∈ s.graph.names := by
  rw [h.names_eq]
  exact List.mem_map_of_mem hf

theorem frame_ext (h : Grown c known s frames) (hf : f ∈ frames) (hf' : f' ∈ frames)
    (hname : f.name = f'.name) : f = f' := by
  obtain ⟨id, hid⟩ := List.mem_iff_getElem?.1 hf
  obtain ⟨id', hid'⟩ := List.mem_iff_getElem?.1 hf'
  have hlookup := h.lookup_eq hid
  rw [hname, h.lookup_eq hid'] at hlookup
  rw [Option.some.inj hlookup, hid] at hid'
  exact Option.some.inj hid'

/-! ## Records under analysis -/

/-- A record's own name is the innermost one of its frame. -/
theorem exists_guard_eq (h : Grown c known s frames) (hf : f ∈ frames) :
    ∃ outer, f.guard.names = outer ++ [f.name] := by
  induction h with
  | start => cases hf
  | @enter s _ _ _ _ _ _ ih =>
      rcases List.mem_append.1 hf with hf | hf
      · exact ih hf
      · rw [List.mem_singleton.1 hf]
        exact ⟨s.guard.names, rfl⟩
  | leave _ _ _ _ ih => exact ih hf

theorem name_mem_guard (h : Grown c known s frames) (hf : f ∈ frames) : f.name ∈ f.guard.names := by
  obtain ⟨outer, houter⟩ := h.exists_guard_eq hf
  rw [houter]
  exact List.mem_concat_self

/-- The names under analysis came in one after the other, each with a frame. -/
theorem exists_frame_of_prefix (h : Grown c known s frames) {outer : List String}
    (houter : outer <+: s.guard.names) (hne : outer ≠ []) :
    ∃ f ∈ frames, f.guard.names = outer := by
  induction h generalizing outer with
  | start => exact absurd (List.prefix_nil.1 houter) hne
  | enter _ _ _ _ ih =>
      rcases List.prefix_concat_iff.1 houter with rfl | houter
      · exact ⟨_, List.mem_concat_self, rfl⟩
      · obtain ⟨f, hf, hguard⟩ := ih houter hne
        exact ⟨f, List.mem_append_left _ hf, hguard⟩
  | leave _ _ _ _ ih => exact ih (houter.trans (List.dropLast_prefix _)) hne

theorem exists_frame_of_mem_guard (h : Grown c known s frames) (hname : name ∈ s.guard.names) :
    ∃ f ∈ frames, f.name = name ∧ f.guard.names <+: s.guard.names := by
  obtain ⟨outer, inner, hguard⟩ := List.append_of_mem hname
  have hpre : outer ++ [name] <+: s.guard.names := ⟨inner, by rw [hguard, List.append_assoc]; rfl⟩
  obtain ⟨f, hf, hnames⟩ := h.exists_frame_of_prefix hpre (by simp)
  obtain ⟨outer', houter'⟩ := h.exists_guard_eq hf
  exact ⟨f, hf, (List.append_singleton_inj.1 (houter'.symm.trans hnames)).2, hnames ▸ hpre⟩

theorem guard_subset_names (h : Grown c known s frames) (hname : name ∈ s.guard.names) :
    name ∈ s.graph.names := by
  obtain ⟨f, hf, rfl, -⟩ := h.exists_frame_of_mem_guard hname
  exact h.mem_names hf

theorem name_notMem_guard (h : Grown c known s frames) (hfresh : s.graph.lookup name = none) :
    name ∉ s.guard.names := fun hname =>
  h.indexed.lookup_eq_none_iff.1 hfresh (h.guard_subset_names hname)

theorem guard_nodup (h : Grown c known s frames) : s.guard.names.Nodup := by
  induction h with
  | start => exact List.nodup_nil
  | enter h _ hfresh _ ih =>
      refine List.nodup_append.2 ⟨ih, by simp, fun a ha b hb hab => ?_⟩
      rw [hab, List.mem_singleton.1 hb] at ha
      exact h.name_notMem_guard hfresh ha
  | leave _ _ _ _ ih => exact ih.sublist (List.dropLast_sublist _)

/-- The names that were under analysis with a record are distinct. -/
theorem guard_nodup_of_mem (h : Grown c known s frames) (hf : f ∈ frames) :
    f.guard.names.Nodup := by
  induction h with
  | start => cases hf
  | enter h hknown hfresh hasked ih =>
      rcases List.mem_append.1 hf with hf | hf
      · exact ih hf
      · rw [List.mem_singleton.1 hf]
        exact (h.enter hknown hfresh hasked).guard_nodup
  | leave _ _ _ _ ih => exact ih hf

/-- Only the innermost record leaves. -/
theorem mem_popped_iff (h : Grown c known s frames) (hf : f ∈ frames) (hguard : f.guard = s.guard) :
    name ∈ s.guard.popped.names ↔ name ∈ s.guard.names ∧ name ≠ f.name := by
  obtain ⟨outer, houter⟩ := h.exists_guard_eq hf
  have hnodup := h.guard_nodup
  rw [hguard] at houter
  rw [CycleGuard.popped, houter, List.dropLast_concat, List.mem_append, List.mem_singleton]
  rw [houter] at hnodup
  constructor
  · intro hmem
    exact ⟨.inl hmem,
      (List.nodup_append.1 hnodup).2.2 name hmem f.name (List.mem_singleton_self _)⟩
  · intro hmem
    exact hmem.1.resolve_right hmem.2

/-- The record that has left is the innermost one. -/
theorem eq_of_notMem_popped (h : Grown c known s frames) (hf : f ∈ frames)
    (hguard : f.guard = s.guard) (hf' : f' ∈ frames) (hopen : f'.name ∈ s.guard.names)
    (hclosed : f'.name ∉ s.guard.popped.names) : f' = f := by
  refine h.frame_ext hf' hf ?_
  by_contra hne
  exact hclosed ((h.mem_popped_iff hf hguard).2 ⟨hopen, hne⟩)

/-- The innermost record is told by the names under analysis. -/
theorem frame_ext_of_guard_eq (h : Grown c known s frames) (hf : f ∈ frames) (hf' : f' ∈ frames)
    (hguard : f.guard = f'.guard) : f = f' := by
  obtain ⟨outer, houter⟩ := h.exists_guard_eq hf
  obtain ⟨outer', houter'⟩ := h.exists_guard_eq hf'
  rw [hguard, houter'] at houter
  exact h.frame_ext hf hf' (List.append_singleton_inj.1 houter).2.symm

/-- A record under analysis has no fields yet. -/
theorem fields_of_mem_guard (h : Grown c known s frames) (hopen : name ∈ s.guard.names) {t : Struct}
    (ht : s.graph.find? name = some t) : t.fields = [] := by
  induction h generalizing t with
  | start => cases hopen
  | enter h _ hfresh _ ih =>
      rw [h.indexed.find?_insert hfresh] at ht
      split at ht
      · rw [← Option.some.inj ht]
        rfl
      · rename_i hname
        rcases List.mem_append.1 hopen with hopen | hopen
        · exact ih hopen ht
        · exact absurd (List.mem_singleton.1 hopen) hname
  | leave h hf hguard _ ih =>
      obtain ⟨hopen, hname⟩ := (h.mem_popped_iff (List.mem_of_getElem? hf) hguard).1 hopen
      rw [h.indexed.find?_modify (h.lookup_eq hf), if_neg hname] at ht
      exact ih hopen ht

end Grown

/-! ## Finished records -/

/-- What is finished in one state is finished in the other, and the same. -/
def WalkState.Keeps (s s' : WalkState) : Prop :=
  ∀ name ∈ s.graph.names, name ∉ s.guard.names →
    name ∈ s'.graph.names ∧ name ∉ s'.guard.names ∧ Agree s.graph s'.graph name

/-- A record is settled once its references are met and its fields are those that its declaration
gives: whatever of them is not still under analysis will not change any more. -/
structure Frame.Settled (f : Frame) (s : WalkState) : Prop where
  met : ∀ name ∈ f.references, name ∈ s.graph.names
  closed : ∀ name ∈ f.references, name ∉ f.guard.names → name ∉ s.guard.names
  fields : ∀ t, s.graph.find? f.name = some t → t.fields = f.fieldsIn s.graph

theorem Frame.fieldsIn_congr {f : Frame} {g g' : Graph}
    (h : ∀ name ∈ f.references, name ∉ f.guard.names → Agree g g' name) :
    f.fieldsIn g' = f.fieldsIn g := bodyFields_congr h

namespace Grown

variable {c : Catalog} {known : RecordDecl → Prop} {s s' : WalkState} {frames : List Frame}
  {f : Frame} {id : StructId}

theorem keeps_enter (h : Grown c known s frames) {r : RecordDecl}
    (hfresh : s.graph.lookup r.name = none) :
    s.Keeps ⟨(s.graph.insert (placeholder c r)).2, s.guard.push r.name⟩ := by
  intro name hname hclosed
  have hne : name ≠ r.name := fun hr => h.indexed.lookup_eq_none_iff.1 hfresh (hr ▸ hname)
  refine ⟨?_, ?_, ?_, ?_⟩
  · rw [Graph.names_insert hfresh]
    exact List.mem_append_left _ hname
  · rw [CycleGuard.names_push, List.mem_append, List.mem_singleton, not_or]
    exact ⟨hclosed, hne⟩
  · rw [Graph.lookup_insert hfresh]
    exact if_neg hne
  · rw [h.indexed.find?_insert hfresh]
    exact if_neg hne

theorem keeps_leave (h : Grown c known s frames) (hf : frames[id]? = some f)
    (hguard : f.guard = s.guard) (fields : List Field) :
    s.Keeps ⟨s.graph.modify id fun t => { t with fields }, s.guard.popped⟩ := by
  intro name hname hclosed
  have hmem := List.mem_of_getElem? hf
  have hne : name ≠ f.name := fun hn => hclosed (hguard ▸ hn ▸ h.name_mem_guard hmem)
  refine ⟨?_, ?_, rfl, ?_⟩
  · exact (names_modify_fields s.graph id fields).symm ▸ hname
  · exact fun hopen => hclosed ((h.mem_popped_iff hmem hguard).1 hopen).1
  · rw [h.indexed.find?_modify (h.lookup_eq hf)]
    exact if_neg hne

/-- What is settled stays settled. -/
theorem settled_of_keeps (h : Grown c known s frames) (hf : f ∈ frames)
    (hclosed : f.name ∉ s.guard.names) (hs : f.Settled s) (hkeeps : s.Keeps s')
    (hnames : ∀ name ∈ s.graph.names, name ∈ s'.graph.names) : f.Settled s' where
  met name hname := hnames name (hs.met name hname)
  closed name hname hguard :=
    (hkeeps name (hs.met name hname) (hs.closed name hname hguard)).2.1
  fields t ht := by
    rw [(hkeeps f.name (h.mem_names hf) hclosed).2.2.find?] at ht
    rw [hs.fields t ht]
    exact (Frame.fieldsIn_congr fun name hname hguard =>
      (hkeeps name (hs.met name hname) (hs.closed name hname hguard)).2.2).symm

/-- A record that is not under analysis any more is settled. -/
theorem settled (h : Grown c known s frames) (hf : f ∈ frames) (hclosed : f.name ∉ s.guard.names) :
    f.Settled s := by
  induction h with
  | start => cases hf
  | enter h _ hfresh _ ih =>
      rw [CycleGuard.names_push, List.mem_append, not_or] at hclosed
      rcases List.mem_append.1 hf with hf | hf
      · refine h.settled_of_keeps hf hclosed.1 (ih hf hclosed.1) (h.keeps_enter hfresh) ?_
        intro name hname
        rw [Graph.names_insert hfresh]
        exact List.mem_append_left _ hname
      · refine absurd (List.mem_singleton.2 ?_) hclosed.2
        rw [List.mem_singleton.1 hf]
        rfl
  | @leave s _ f₀ id h hf₀ hguard hmet ih =>
      have hmem := List.mem_of_getElem? hf₀
      have hkeeps := h.keeps_leave hf₀ hguard (f₀.fieldsIn s.graph)
      have hnames := names_modify_fields s.graph id (f₀.fieldsIn s.graph)
      by_cases hopen : f.name ∈ s.guard.names
      · obtain rfl := h.eq_of_notMem_popped hmem hguard hf hopen hclosed
        have hoff : ∀ name ∈ f.references, name ∉ f.guard.names → name ∉ s.guard.names := by
          rw [hguard]
          exact fun _ _ hoff => hoff
        refine ⟨fun name hname => hnames ▸ hmet name hname, fun name hname hoff' => ?_, ?_⟩
        · exact (hkeeps name (hmet name hname) (hoff name hname hoff')).2.1
        · intro t ht
          rw [h.indexed.find?_modify (h.lookup_eq hf₀), if_pos rfl, Option.map_eq_some_iff] at ht
          obtain ⟨t, -, rfl⟩ := ht
          exact (Frame.fieldsIn_congr fun name hname hoff' =>
            (hkeeps name (hmet name hname) (hoff name hname hoff')).2.2).symm
      · exact h.settled_of_keeps hf hopen (ih hf hopen) hkeeps fun name hname => hnames ▸ hname

/-- Between calls every record is settled. -/
theorem settled_of_guard_eq_empty (h : Grown c known s frames) (hguard : s.guard = .empty)
    (hf : f ∈ frames) : f.Settled s :=
  h.settled hf (by rw [hguard]; exact List.not_mem_nil)

end Grown

end RecordSchema.Reflection
