import RecordSchema.Proofs.Reflection.Outcome

/-!
# The effect of a call

A walk that succeeds only adds structs at the end of the graph, and one that fails puts back the
graph that was there before, whatever records it had finished on the way; the records under analysis
are the same before and after.  So each call on a reflector either extends its graph or changes
nothing.
-/

namespace RecordSchema.Reflection

open Schema (Field Graph Struct StructId)

variable {v : String → Walk StructId} {s s' s'' : WalkState}

/-! ## Walks -/

/-- The state `s'` comes after `s` in a walk: the same records are under analysis, and structs have
only been added. -/
structure WalkState.Continues (s s' : WalkState) : Prop where
  guard : s'.guard = s.guard
  indexed : s'.graph.Indexed
  structs : s.graph.structs <+: s'.graph.structs

namespace WalkState.Continues

theorem refl (h : s.graph.Indexed) : s.Continues s := ⟨rfl, h, List.prefix_rfl⟩

theorem trans (h : s.Continues s') (h' : s'.Continues s'') : s.Continues s'' :=
  ⟨h'.guard.trans h.guard, h'.indexed, h.structs.trans h'.structs⟩

/-- A record that came under analysis and leaves with its fields has only added its struct. -/
theorem leave {name : String} {t : Struct} (fields : List Field)
    (h : (⟨(s.graph.insert t).2, s.guard.push name⟩ : WalkState).Continues s') :
    s.Continues
      ⟨s'.graph.modify s.graph.size fun t => { t with fields }, s'.guard.popped⟩ where
  guard := by rw [h.guard, CycleGuard.popped_push]
  indexed := h.indexed.modify _ fun _ => rfl
  structs := Graph.prefix_modify ((Graph.prefix_insert s.graph t).trans h.structs) (Nat.le_refl _) _

end WalkState.Continues

/-- Visits that only add structs, and change nothing when they fail. -/
def Steady (v : String → Walk StructId) : Prop :=
  ∀ name s, s.graph.Indexed → (v name).Ensures s (fun _ => s.Continues) fun _ s' => s' = s

theorem Steady.refer (hv : Steady v) (name : String) (hs : s.graph.Indexed) :
    (refer v name).Ensures s (fun _ => s.Continues) fun _ s' => s' = s := by
  by_cases h : name ∈ s.guard.names
  · exact (Walk.ensures_refer_of_mem h).2 (.refl hs)
  · exact (hv name s hs).refer h fun _ _ hc => hc

theorem Steady.walkStep (hv : Steady v) (step : BodyStep) (hs : s.graph.Indexed) :
    (walkStep v step).Ensures s (fun _ => s.Continues) fun _ s' => s' = s := by
  rw [Reflection.walkStep]
  cases step.item with
  | field decl tag shape =>
      refine (Walk.ensures_map _).2 ?_
      rw [analyze]
      cases shape.reference? with
      | none => exact (Walk.ensures_pure _).2 (.refl hs)
      | some name => exact (Walk.ensures_map _).2 (hv.refer name hs)
  | embed record => exact (hv record s hs).bind (fun _ _ hc => hc) fun _ _ he => he

theorem Steady.walkStep_context (hv : Steady v) (owner : String) (step : BodyStep)
    (hs : s.graph.Indexed) :
    Walk.Ensures (EStateM.adaptExcept (step.context owner) (Reflection.walkStep v step)) s
      (fun _ => s.Continues) fun _ s' => s' = s :=
  (Walk.ensures_adaptExcept _).2 (hv.walkStep step hs)

/-- A body keeps what its earlier steps have added, also when a later one fails. -/
theorem Steady.walkBody (hv : Steady v) (owner : String) (steps : List BodyStep)
    (hs : s.graph.Indexed) :
    (walkBody v owner steps).Ensures s (fun _ => s.Continues) fun _ => s.Continues := by
  induction steps generalizing s with
  | nil => exact (Walk.ensures_pure _).2 (.refl hs)
  | cons step rest ih =>
      refine (hv.walkStep_context owner step hs).bind ?_ ?_
      · intro fields s₁ h₁
        refine (Walk.ensures_map _).2 ((ih h₁.indexed).mono ?_ ?_)
        · exact fun _ _ hc => h₁.trans hc
        · exact fun _ _ hc => h₁.trans hc
      · rintro _ _ rfl
        exact .refl hs

theorem Steady.walkRecord (hv : Steady v) (c : Catalog) (r : RecordDecl)
    (hs : s.graph.Indexed) :
    (walkRecord c v r).Ensures s (fun _ => s.Continues) fun _ s' => s' = s := by
  cases ha : r.isAnonymous with
  | true => exact (Walk.ensures_walkRecord_of_anonymous ha).2 rfl
  | false =>
      cases hl : s.graph.lookup r.name with
      | some id => exact (Walk.ensures_walkRecord_of_lookup ha hl).2 (.refl hs)
      | none =>
          have hpre := Graph.prefix_insert s.graph (placeholder c r)
          refine (Walk.ensures_walkRecord_of_fresh ha hl).2 <|
            (hv.walkBody r.name (bodySteps r.fields) (hs.insert (placeholder c r))).mono ?_ ?_
          · exact fun fields s' h => h.leave _
          · intro e s' h
            rw [h.guard, CycleGuard.popped_push,
              hs.truncate_eq h.indexed (hpre.trans h.structs)]

/-- Reflection only adds structs, and changes nothing when it fails. -/
theorem steady_visit (c : Catalog) (room : Nat) : Steady (visit c room) := by
  induction room using Nat.strongRecOn with
  | ind room ih =>
      intro name s hs
      refine Walk.Ensures.visit (fun _ _ => .refl hs) rfl ?_
      intro less r hless _ _
      exact (ih less hless).walkRecord c r hs

/-! ## Calls -/

/-- A call on a reflector. -/
inductive Call where
  | reflect (name : String)
  | reflectType (ty : TypeExpr)
  | reflectRecord (decl : RecordDecl)

namespace Reflector

def call (r : Reflector) : Call → Except ReflectError StructId × Reflector
  | .reflect name => r.reflect name
  | .reflectType ty => r.reflectType ty
  | .reflectRecord decl => r.reflectRecord decl

/-- The reflector of a catalog after some calls; those that fail count too. -/
def after (c : Catalog) (calls : List Call) : Reflector :=
  calls.foldl (fun r k => (r.call k).2) (.ofCatalog c)

/-- What holds at the start and is kept by every call holds after any calls. -/
theorem after_induction {c : Catalog} {p : Reflector → Prop} (hstart : p (.ofCatalog c))
    (hcall : ∀ r k, p r → p (r.call k).2) (calls : List Call) : p (after c calls) := by
  rw [after]
  generalize Reflector.ofCatalog c = r at hstart
  induction calls generalizing r with
  | nil => exact hstart
  | cons k rest ih => exact ih _ (hcall r k hstart)

theorem run_of_ensures {r : Reflector} {w : Walk StructId} {post : StructId → WalkState → Prop}
    {fail : ReflectError → WalkState → Prop} (h : w.Ensures r.toWalkState post fail) :
    (r.run w).2.catalog = r.catalog ∧
      match (r.run w).1 with
      | .ok id => post id (r.run w).2.toWalkState
      | .error e => fail e (r.run w).2.toWalkState := by
  rw [Walk.Ensures] at h
  rw [run]
  cases hw : w r.toWalkState with
  | ok id s =>
      rw [hw] at h
      exact ⟨rfl, h⟩
  | error e s =>
      rw [hw] at h
      exact ⟨rfl, h⟩

/-- A call that succeeds continues the walk, one that fails changes nothing. -/
theorem call_effect {r : Reflector} (hr : r.graph.Indexed) (k : Call) :
    (r.call k).2.catalog = r.catalog ∧
      match (r.call k).1 with
      | .ok _ => r.toWalkState.Continues (r.call k).2.toWalkState
      | .error _ => (r.call k).2.toWalkState = r.toWalkState := by
  have hreflect : ∀ name, _ := fun name =>
    run_of_ensures (steady_visit r.catalog r.catalog.size name r.toWalkState hr)
  cases k with
  | reflect name => exact hreflect name
  | reflectRecord decl =>
      exact run_of_ensures ((steady_visit r.catalog r.catalog.size).walkRecord r.catalog decl hr)
  | reflectType ty =>
      rw [call, reflectType]
      split
      · exact hreflect _
      · exact ⟨rfl, rfl⟩
      · exact ⟨rfl, rfl⟩

theorem call_continues {r : Reflector} (hr : r.graph.Indexed) (k : Call) :
    r.toWalkState.Continues (r.call k).2.toWalkState := by
  have h := (call_effect hr k).2
  split at h
  · exact h
  · rw [h]
    exact .refl hr

theorem after_indexed (c : Catalog) (calls : List Call) : (after c calls).graph.Indexed :=
  after_induction (p := fun r => r.graph.Indexed) Graph.indexed_empty
    (fun _ k h => (call_continues h k).indexed) calls

theorem after_catalog (c : Catalog) (calls : List Call) : (after c calls).catalog = c :=
  (after_induction (p := fun r => r.graph.Indexed ∧ r.catalog = c) ⟨Graph.indexed_empty, rfl⟩
    (fun _ k h => ⟨(call_continues h.1 k).indexed, (call_effect h.1 k).1.trans h.2⟩) calls).2

/-- Between calls no record is under analysis. -/
theorem after_guard (c : Catalog) (calls : List Call) : (after c calls).guard = .empty :=
  (after_induction (p := fun r => r.graph.Indexed ∧ r.guard = .empty) ⟨Graph.indexed_empty, rfl⟩
    (fun _ k h => ⟨(call_continues h.1 k).indexed, (call_continues h.1 k).guard.trans h.2⟩)
    calls).2

/-- After any calls, a call that succeeds only adds structs to the graph, and one that fails leaves
the graph, its index included, as it was; no record stays under analysis. -/
theorem call_extends_or_restores (c : Catalog) (earlier : List Call) (k : Call) :
    ((after c earlier).call k).2.guard = .empty ∧
      match ((after c earlier).call k).1 with
      | .ok _ => (after c earlier).graph.Extends ((after c earlier).call k).2.graph
      | .error _ => ((after c earlier).call k).2.graph = (after c earlier).graph := by
  have hr := after_indexed c earlier
  refine ⟨(call_continues hr k).guard.trans (after_guard c earlier), ?_⟩
  have h := (call_effect hr k).2
  split at h
  · exact hr.extends h.indexed h.structs
  · exact congrArg WalkState.graph h

end Reflector

end RecordSchema.Reflection
