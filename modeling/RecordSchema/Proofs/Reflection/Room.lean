import Mathlib.Data.List.Basic
import RecordSchema.Proofs.Reflection.Effect

/-!
# Room for records

The room of a visit is bookkeeping and no bound.  Two visits do the same as soon as both have room
for the declared names that have no struct yet, since each record that comes under analysis takes
one of them away.  So a reflector, which gives a visit room for the whole catalog, visits as if there
were no such limit, and a record that is unknown to it is not declared.
-/

namespace RecordSchema.Reflection

open Schema (Graph StructId)

variable {c : Catalog} {v v' : String → Walk StructId} {s : WalkState}

/-! ## Names without a struct -/

/-- The declared names that have no struct. -/
def missingNames (c : Catalog) (g : Graph) : List String := c.names.filter (· ∉ g.names)

theorem length_missingNames_le_size (c : Catalog) (g : Graph) :
    (missingNames c g).length ≤ c.size := by
  have hlength : c.names.length = c.size := List.length_map _
  rw [← hlength]
  exact List.length_filter_le ..

theorem length_missingNames_le {g g' : Graph} (h : g.structs <+: g'.structs) :
    (missingNames c g').length ≤ (missingNames c g).length := by
  refine (List.monotone_filter_right c.names fun name hname => ?_).length_le
  simp only [decide_eq_true_eq] at hname ⊢
  exact fun hmem => hname (Graph.names_subset_of_prefix h hmem)

/-- A declared record that comes under analysis takes its name away. -/
theorem length_missingNames_insert_lt {g : Graph} (hg : g.Indexed) {r : RecordDecl}
    (hmem : r ∈ c.records) (hfresh : g.lookup r.name = none) :
    (missingNames c (g.insert (placeholder c r)).2).length < (missingNames c g).length := by
  have hmissing : r.name ∈ missingNames c g := by
    rw [missingNames, List.mem_filter, decide_eq_true_eq]
    exact ⟨List.mem_map_of_mem hmem, hg.lookup_eq_none_iff.1 hfresh⟩
  have hnames : missingNames c (g.insert (placeholder c r)).2 =
      (missingNames c g).filter (· ≠ r.name) := by
    rw [missingNames, Graph.names_insert hfresh, missingNames, List.filter_filter]
    refine List.filter_congr fun name _ => ?_
    simp [placeholder, and_comm]
  rw [hnames]
  exact List.length_filter_lt_length_iff_exists.2 ⟨r.name, hmissing, by simp⟩

/-- Once a record has come under analysis, fewer names are without a struct. -/
theorem length_missingNames_lt_of_continues (hs : s.graph.Indexed) {r : RecordDecl}
    (hmem : r ∈ c.records) (hfresh : s.graph.lookup r.name = none) {s' : WalkState}
    (hcontinues : (⟨(s.graph.insert (placeholder c r)).2, s.guard.push r.name⟩ :
      WalkState).Continues s') :
    (missingNames c s'.graph).length < (missingNames c s.graph).length :=
  Nat.lt_of_le_of_lt (length_missingNames_le hcontinues.structs)
    (length_missingNames_insert_lt hs hmem hfresh)

/-! ## Walks that do the same -/

/-- The visits do the same in every state that comes after `s`. -/
def SameAfter (s : WalkState) (v v' : String → Walk StructId) : Prop :=
  ∀ name s', s.Continues s' → v name s' = v' name s'

theorem bind_congr_apply {α β : Type} {w w' : Walk α} {k k' : α → Walk β} (hw : w s = w' s)
    (hk : ∀ a s', w s = .ok a s' → k a s' = k' a s') : (w >>= k) s = (w' >>= k') s := by
  change EStateM.bind w k s = EStateM.bind w' k' s
  rw [EStateM.bind, EStateM.bind, ← hw]
  cases h : w s with
  | ok a s' => exact hk a s' h
  | error e s' => rfl

theorem map_congr_apply {α β : Type} {w w' : Walk α} (f : α → β) (hw : w s = w' s) :
    (f <$> w) s = (f <$> w') s := by
  change EStateM.map f w s = EStateM.map f w' s
  rw [EStateM.map, EStateM.map, hw]

theorem refer_congr {name : String} (h : v name s = v' name s) :
    refer v name s = refer v' name s := by
  rw [Walk.refer_apply, Walk.refer_apply]
  split
  · rfl
  · exact bind_congr_apply h fun _ _ _ => rfl

theorem walkStep_congr (step : BodyStep) (h : ∀ name, v name s = v' name s) :
    walkStep v step s = walkStep v' step s := by
  rw [walkStep, walkStep]
  cases step.item with
  | field decl tag shape =>
      refine map_congr_apply _ ?_
      unfold analyze
      cases shape.reference? with
      | none => rfl
      | some name => exact map_congr_apply _ (refer_congr (h name))
  | embed record => exact bind_congr_apply (h record) fun _ _ _ => rfl

/-- Bodies only pass states that come after the first one. -/
theorem walkBody_congr (hv : Steady v) (owner : String) (steps : List BodyStep)
    (hs : s.graph.Indexed) (h : SameAfter s v v') :
    walkBody v owner steps s = walkBody v' owner steps s := by
  induction steps generalizing s with
  | nil => rfl
  | cons step rest ih =>
      have hstep : walkStep v step s = walkStep v' step s :=
        walkStep_congr step fun name => h name s (.refl hs)
      have hcontext : EStateM.adaptExcept (step.context owner) (walkStep v step) s =
          EStateM.adaptExcept (step.context owner) (walkStep v' step) s := by
        rw [EStateM.adaptExcept, EStateM.adaptExcept, hstep]
      refine bind_congr_apply hcontext fun fields s' hok => map_congr_apply _ ?_
      have hcontinues := (Walk.ensures_of_ok hok).1 (hv.walkStep_context owner step hs)
      exact ih hcontinues.indexed fun name s'' h'' => h name s'' (hcontinues.trans h'')

theorem walkRecord_congr (hv : Steady v) {r : RecordDecl} (hs : s.graph.Indexed)
    (h : s.graph.lookup r.name = none →
      SameAfter ⟨(s.graph.insert (placeholder c r)).2, s.guard.push r.name⟩ v v') :
    walkRecord c v r s = walkRecord c v' r s := by
  rw [walkRecord, walkRecord]
  split
  · rfl
  · split
    · rfl
    · rename_i hfresh
      have hbody := walkBody_congr hv r.name (bodySteps r.fields) (hs.insert (placeholder c r))
        (h hfresh)
      simp only [inFrame, hbody]

/-! ## Room -/

/-- Visits with room for the names that are missing do the same. -/
theorem visit_room (c : Catalog) {room room' : Nat} (name : String) (hs : s.graph.Indexed)
    (hroom : (missingNames c s.graph).length ≤ room)
    (hroom' : (missingNames c s.graph).length ≤ room') :
    visit c room name s = visit c room' name s := by
  induction room using Nat.strongRecOn generalizing room' name s with
  | ind room ih =>
      cases hl : s.graph.lookup name with
      | some id => rw [Walk.visit_of_lookup hl, Walk.visit_of_lookup hl]
      | none =>
          cases hr : c.find? name with
          | none => rw [Walk.visit_of_unknown hl (.inr hr), Walk.visit_of_unknown hl (.inr hr)]
          | some r =>
              obtain ⟨hmem, rfl⟩ := Catalog.mem_of_find?_eq_some hr
              have hlt := length_missingNames_insert_lt hs hmem hl
              obtain ⟨less, rfl⟩ : ∃ n, room = n + 1 := ⟨room - 1, by omega⟩
              obtain ⟨less', rfl⟩ : ∃ n, room' = n + 1 := ⟨room' - 1, by omega⟩
              rw [Walk.visit_of_record hl hr, Walk.visit_of_record hl hr]
              refine walkRecord_congr (steady_visit c less) hs fun _ name s' hcontinues => ?_
              have hlt' := length_missingNames_lt_of_continues hs hmem hl hcontinues
              exact ih less (Nat.lt_succ_self less) name hcontinues.indexed (by omega) (by omega)

/-- A visit with room for the whole catalog fails only as the declarations make it fail. -/
theorem visit_size (c : Catalog) (name : String) (hs : s.graph.Indexed) :
    visit c c.size name s =
      match s.graph.lookup name, c.find? name with
      | some id, _ => .ok id s
      | none, some r => walkRecord c (visit c c.size) r s
      | none, none => .error (.unknownRecord name) s := by
  have hsize := length_missingNames_le_size c s.graph
  cases hl : s.graph.lookup name with
  | some id => exact Walk.visit_of_lookup hl
  | none =>
      cases hr : c.find? name with
      | none => exact Walk.visit_of_unknown hl (.inr hr)
      | some r =>
          calc visit c c.size name s
              = visit c (c.size + 1) name s := visit_room c name hs hsize (by omega)
            _ = walkRecord c (visit c c.size) r s := Walk.visit_of_record hl hr

end RecordSchema.Reflection
