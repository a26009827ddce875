import RecordSchema.Proofs.Reflection.Termination
import RecordSchema.Proofs.Schema.Annotation

/-!
# Reflection and annotations

Reflection neither makes annotations nor looks at them.  The structs of a reflector are not marked
as roots of resources nor left out, and nothing is put on their fields.  A struct that is marked
between two calls makes no difference to the second one, so the marks might as well be made after
all calls.
-/

namespace RecordSchema.Reflection

open Schema (Field Graph Struct StructId)

variable {c : Catalog} {id : StructId}

/-! ## Reflected structs -/

theorem annotations_overrideField (owner : String) (f : Field) :
    (overrideField owner f).annotations = f.annotations := by
  rw [overrideField_eq]
  rfl

theorem annotations_of_mem_expandField {g : Graph} {f e : Field} (h : f.annotations = {})
    (he : e ∈ expandField g f) : e.annotations = {} := by
  rw [expandField] at he
  split at he
  · rcases List.mem_cons.1 he with heq | he
    · rw [heq]
      exact h
    · obtain ⟨a, -, rfl⟩ := List.mem_map.1 he
      rfl
  · rwa [List.mem_singleton.1 he]

theorem annotations_of_mem_finishField {g : Graph} {owner : String} {f e : Field}
    (h : f.annotations = {}) (he : e ∈ finishField g owner f) : e.annotations = {} := by
  obtain ⟨d, hd, heq⟩ := List.mem_map.1 he
  rw [← heq, annotations_overrideField]
  exact annotations_of_mem_expandField ((annotations_overrideField owner f).trans h) hd

theorem annotations_fieldOf (decl : FieldDecl) (tag : Tag) (shape : Shape)
    (referent : Option Referent) : (fieldOf decl tag shape referent).annotations = {} := by
  cases shape with
  | scalar kind =>
      rw [fieldOf, scalarField]
      split <;> rfl
  | record name =>
      rcases referent with _ | trace | ⟨id, target⟩
      · rfl
      · rfl
      · rw [fieldOf, recordField]
        split <;> rfl
  | recordList name => rcases referent with _ | trace | ⟨id, target⟩ <;> rfl
  | _ => rfl

theorem annotations_of_mem_finishedFields {g : Graph} {guard : CycleGuard} {owner : String}
    {step : BodyStep} (h : ∀ t ∈ g.structs, ∀ f ∈ t.fields, f.annotations = {}) {f : Field}
    (hf : f ∈ finishedFields g guard owner step) : f.annotations = {} := by
  rw [finishedFields] at hf
  split at hf
  · exact annotations_of_mem_finishField (annotations_fieldOf ..) hf
  · split at hf
    · cases hf
    · rename_i record _ _
      obtain ⟨e, he, heq⟩ := List.mem_map.1 hf
      rw [← heq, annotations_overrideField]
      cases ht : g.find? record with
      | none =>
          rw [ht] at he
          cases he
      | some t =>
          rw [ht] at he
          obtain ⟨id, -, hid⟩ := Option.bind_eq_some_iff.1 ht
          exact h t (List.mem_of_getElem? hid) e he

namespace Grown

variable {known : RecordDecl → Prop} {s : WalkState} {frames : List Frame} {t : Struct}

/-- But for its fields a struct is what was made for its record. -/
theorem exists_bare_eq (h : Grown c known s frames) (ht : t ∈ s.graph.structs) :
    ∃ f ∈ frames, bare t = placeholder c f.decl := by
  have hmem := List.mem_map_of_mem (f := bare) ht
  rw [h.map_bare] at hmem
  obtain ⟨f, hf, heq⟩ := List.mem_map.1 hmem
  exact ⟨f, hf, heq.symm⟩

/-- Reflection marks no struct. -/
theorem isTopLevel_eq_false (h : Grown c known s frames) (ht : t ∈ s.graph.structs) :
    t.isTopLevel = false := by
  obtain ⟨f, -, heq⟩ := h.exists_bare_eq ht
  exact (congrArg Struct.isTopLevel heq :)

/-- Reflection leaves no struct out. -/
theorem exclusion_eq_none (h : Grown c known s frames) (ht : t ∈ s.graph.structs) :
    t.exclusion = none := by
  obtain ⟨f, -, heq⟩ := h.exists_bare_eq ht
  exact (congrArg Struct.exclusion heq :)

/-- Reflection puts nothing on fields. -/
theorem annotations_eq_empty (h : Grown c known s frames) :
    ∀ t ∈ s.graph.structs, ∀ f ∈ t.fields, f.annotations = {} := by
  induction h with
  | start => exact fun t ht => by cases ht
  | enter _ _ hfresh _ ih =>
      intro t ht f hf
      rw [Graph.insert_of_lookup_eq_none hfresh] at ht
      rcases List.mem_append.1 ht with ht | ht
      · exact ih t ht f hf
      · rw [List.mem_singleton.1 ht] at hf
        cases hf
  | leave h hf hguard hmet ih =>
      intro t ht e he
      obtain ⟨id', hid'⟩ := List.mem_iff_getElem?.1 ht
      rw [← Graph.get?, Graph.get?_modify, Option.map_eq_some_iff] at hid'
      obtain ⟨t', ht', rfl⟩ := hid'
      split at he
      · obtain ⟨step, -, he⟩ := List.mem_flatMap.1 he
        exact annotations_of_mem_finishedFields ih he
      · exact ih t' (List.mem_of_getElem? ht') e he

end Grown

/-! ## Walks -/

def WalkState.markTop (s : WalkState) (id : StructId) : WalkState :=
  { s with graph := s.graph.markTop id }

def Outcome.markTop {α : Type} (id : StructId) : Outcome α → Outcome α
  | .ok a s => .ok a (s.markTop id)
  | .error e s => .error e (s.markTop id)

theorem Outcome.markTop_map {α β : Type} {f : α → WalkState → β}
    (hf : ∀ a s, f a (s.markTop id) = f a s) (out : Outcome α) :
    (out.map f).markTop id = (out.markTop id).map f := by
  cases out with
  | ok a s => rw [map, markTop, markTop, map, hf]
  | error e s => rfl

theorem finishFields_markTop (g : Graph) (id : StructId) (owner : String) (fields : List Field) :
    finishFields (g.markTop id) owner fields = finishFields g owner fields := by
  have hexpand : expandField (g.markTop id) = expandField g := by
    funext f
    have hjoin (g : Graph) (t : StructId) : (g.get? t).bind Struct.valueWithUnit? =
        ((g.get? t).map Struct.valueWithUnit?).join := by
      cases g.get? t <;> rfl
    have hpattern : ((g.markTop id).target? f).bind Struct.valueWithUnit? =
        (g.target? f).bind Struct.valueWithUnit? := by
      rw [Graph.target?, Graph.target?, Option.bind_assoc, Option.bind_assoc]
      refine Option.bind_congr fun t _ => ?_
      rw [hjoin, hjoin, Graph.map_get?_markTop Struct.valueWithUnit? fun _ => rfl]
    rw [expandField, expandField, expansion?, expansion?, hpattern]
  rw [finishFields, finishFields, expand, expand, hexpand]

theorem fieldOf_markTop (decl : FieldDecl) (tag : Tag) (shape : Shape) (g : Graph)
    (id t : StructId) :
    fieldOf decl tag shape (some (.struct t ((g.markTop id).get? t))) =
      fieldOf decl tag shape (some (.struct t (g.get? t))) := by
  have hmap := Graph.map_get?_markTop Struct.pattern (fun _ => rfl) g id t
  cases shape with
  | record name => rw [fieldOf, fieldOf, recordField, recordField, hmap]
  | _ => rfl

theorem lt_size_insert {g : Graph} {s : Struct} (hid : id < g.size) : id < (g.insert s).2.size :=
  Nat.lt_of_lt_of_le hid (Graph.prefix_insert g s).length_le

mutual

theorem VisitRuns.markTop {name : String} {s : WalkState} {trace : List Frame}
    {out : Outcome StructId} (h : VisitRuns c name s trace out) :
    s.graph.Indexed → id < s.graph.size →
      VisitRuns c name (s.markTop id) trace (out.markTop id) := by
  match h with
  | .found hid => exact fun _ _ => .found hid
  | .unknown hfresh hunknown => exact fun _ _ => .unknown hfresh hunknown
  | .record hfresh hr h => exact fun hs hid => .record hfresh hr (RecordRuns.markTop h hs hid)

theorem RecordRuns.markTop {r : RecordDecl} {s : WalkState} {trace : List Frame}
    {out : Outcome StructId} (h : RecordRuns c r s trace out) :
    s.graph.Indexed → id < s.graph.size →
      RecordRuns c r (s.markTop id) trace (out.markTop id) := by
  match h with
  | .anonymous hanonymous => exact fun _ _ => .anonymous hanonymous
  | .found hnamed hid => exact fun _ _ => .found hnamed hid
  | .filled hnamed hfresh h =>
      intro hs hid
      have hbody := BodyRuns.markTop h (hs.insert _) (lt_size_insert hid)
      have hinsert := Graph.insert_markTop (s := placeholder c r) hid hfresh
      rw [WalkState.markTop, ← hinsert] at hbody
      have hrecord := RecordRuns.filled (s := s.markTop id) hnamed hfresh hbody
      simp only [WalkState.markTop, Graph.size_markTop, finishFields_markTop] at hrecord
      rwa [Graph.modify_fields_markTop] at hrecord
  | .cut hnamed hfresh h =>
      intro hs hid
      have hbody := BodyRuns.markTop h (hs.insert _) (lt_size_insert hid)
      have hinsert := Graph.insert_markTop (s := placeholder c r) hid hfresh
      rw [WalkState.markTop, ← hinsert] at hbody
      have hrecord := RecordRuns.cut (s := s.markTop id) hnamed hfresh hbody
      simp only [WalkState.markTop, Graph.size_markTop] at hrecord
      rwa [Graph.truncate_markTop] at hrecord

theorem BodyRuns.markTop {owner : String} {steps : List BodyStep} {s : WalkState}
    {trace : List Frame} {out : Outcome (List Field)} (h : BodyRuns c owner steps s trace out) :
    s.graph.Indexed → id < s.graph.size →
      BodyRuns c owner steps (s.markTop id) trace (out.markTop id) := by
  match h with
  | .done => exact fun _ _ => .done
  | .next hstep h =>
      intro hs hid
      have hcontinues := hstep.continues hs
      rw [Outcome.markTop_map fun _ _ => rfl]
      exact .next (StepRuns.markTop hstep hs hid) (BodyRuns.markTop h hcontinues.indexed
        (Nat.lt_of_lt_of_le hid hcontinues.structs.length_le))
  | .failed hstep => exact fun hs hid => .failed (StepRuns.markTop hstep hs hid)

theorem StepRuns.markTop {step : BodyStep} {s : WalkState} {trace : List Frame}
    {out : Outcome (List Field)} (h : StepRuns c step s trace out) :
    s.graph.Indexed → id < s.graph.size →
      StepRuns c step (s.markTop id) trace (out.markTop id) := by
  match h with
  | .plain hitem hplain => exact fun _ _ => .plain hitem hplain
  | .back hitem hname hon => exact fun _ _ => .back hitem hname hon
  | .linked hitem hname hoff h =>
      intro hs hid
      rw [Outcome.markTop_map fun _ _ => by rw [WalkState.markTop, fieldOf_markTop]]
      exact .linked hitem hname hoff (VisitRuns.markTop h hs hid)
  | .embedded hitem h =>
      intro hs hid
      rw [Outcome.markTop_map fun _ _ => Graph.fieldsAt_markTop ..]
      exact .embedded hitem (VisitRuns.markTop h hs hid)

end

/-! ## Calls -/

namespace Reflector

variable {r : Reflector} {ids : List StructId}

def markTop (r : Reflector) (id : StructId) : Reflector := { r with graph := r.graph.markTop id }

/-- A mark makes no difference to what is reflected after it. -/
theorem reflect_markTop (hs : r.graph.Indexed) (hid : id < r.graph.size) (name : String) :
    (r.markTop id).reflect name = ((r.reflect name).1, (r.reflect name).2.markTop id) := by
  obtain ⟨trace, h⟩ := exists_visitRuns r.catalog name hs
  have hplain := call_of_runs (k := .reflect name) rfl hs (.reflect h)
  have hmarked := call_of_runs (r := r.markTop id) (k := .reflect name) rfl
    (hs.markTop id) (.reflect (h.markTop hs hid))
  rw [call] at hplain hmarked
  rw [hplain, hmarked]
  generalize visit r.catalog r.catalog.size name r.toWalkState = out
  cases out <;> rfl

theorem reflect_foldl_markTop (hs : r.graph.Indexed) (hids : ∀ id ∈ ids, id < r.graph.size)
    (name : String) :
    (ids.foldl markTop r).reflect name =
      ((r.reflect name).1, ids.foldl markTop (r.reflect name).2) := by
  induction ids generalizing r with
  | nil => rfl
  | cons id rest ih =>
      obtain ⟨hid, hrest⟩ := List.forall_mem_cons.1 hids
      have hsize : (r.markTop id).graph.size = r.graph.size := Graph.size_markTop ..
      rw [List.foldl_cons, ih (hs.markTop id) (hsize ▸ hrest),
        reflect_markTop hs hid, List.foldl_cons]

theorem graph_foldl_markTop (r : Reflector) (ids : List StructId) :
    (ids.foldl markTop r).graph = ids.foldl Graph.markTop r.graph := by
  induction ids generalizing r with
  | nil => rfl
  | cons id rest ih => exact ih (r.markTop id)

end Reflector

end RecordSchema.Reflection
