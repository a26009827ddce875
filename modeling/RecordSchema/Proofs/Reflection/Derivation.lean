import RecordSchema.Proofs.Reflection.Growth
import RecordSchema.Proofs.Reflection.Room

/-!
# Walks without a bound

Reflection as it is meant, without a bound on how many records come under analysis: a relation
between a walk, the state it starts from, the records that come under analysis on the way and the
outcome.  A walk that went on forever would have no outcome and would not be in it.  The bounded
walk of a reflector has the one outcome there is.
-/

namespace RecordSchema.Reflection

open Schema (Field Graph StructId)

/-- How a walk ends. -/
abbrev Outcome (α : Type) := EStateM.Result ReflectError WalkState α

/-- Changes what a walk gives, by the state it ends in. -/
def Outcome.map {α β : Type} (f : α → WalkState → β) : Outcome α → Outcome β
  | .ok a s => .ok (f a s) s
  | .error e s => .error e s

/-! ## The relation -/

mutual

/-- The visit of a name. -/
inductive VisitRuns (c : Catalog) : String → WalkState → List Frame → Outcome StructId → Prop
  | found {name : String} {s : WalkState} {id : StructId}
      (hid : s.graph.lookup name = some id) : VisitRuns c name s [] (.ok id s)
  | unknown {name : String} {s : WalkState} (hfresh : s.graph.lookup name = none)
      (hunknown : c.find? name = none) : VisitRuns c name s [] (.error (.unknownRecord name) s)
  | record {name : String} {s : WalkState} {r : RecordDecl} {trace : List Frame}
      {out : Outcome StructId} (hfresh : s.graph.lookup name = none) (hr : c.find? name = some r)
      (h : RecordRuns c r s trace out) : VisitRuns c name s trace out

/-- The walk over a record. One that comes under analysis has a frame in the trace, whether its
analysis succeeds or not. -/
inductive RecordRuns (c : Catalog) :
    RecordDecl → WalkState → List Frame → Outcome StructId → Prop
  | anonymous {r : RecordDecl} {s : WalkState} (hanonymous : r.isAnonymous = true) :
      RecordRuns c r s [] (.error .anonymous s)
  | found {r : RecordDecl} {s : WalkState} {id : StructId} (hnamed : r.isAnonymous = false)
      (hid : s.graph.lookup r.name = some id) : RecordRuns c r s [] (.ok id s)
  | filled {r : RecordDecl} {s s' : WalkState} {trace : List Frame} {fields : List Field}
      (hnamed : r.isAnonymous = false) (hfresh : s.graph.lookup r.name = none)
      (h : BodyRuns c r.name (bodySteps r.fields)
        ⟨(s.graph.insert (placeholder c r)).2, s.guard.push r.name⟩ trace (.ok fields s')) :
      RecordRuns c r s (⟨r, s.guard.push r.name⟩ :: trace)
        (.ok s.graph.size ⟨s'.graph.modify s.graph.size fun t =>
          { t with fields := finishFields s'.graph r.name fields }, s'.guard.popped⟩)
  | cut {r : RecordDecl} {s s' : WalkState} {trace : List Frame} {e : ReflectError}
      (hnamed : r.isAnonymous = false) (hfresh : s.graph.lookup r.name = none)
      (h : BodyRuns c r.name (bodySteps r.fields)
        ⟨(s.graph.insert (placeholder c r)).2, s.guard.push r.name⟩ trace (.error e s')) :
      RecordRuns c r s (⟨r, s.guard.push r.name⟩ :: trace)
        (.error e ⟨s'.graph.truncate s.graph.size, s'.guard.popped⟩)

/-- The walk over the steps of a body. -/
inductive BodyRuns (c : Catalog) :
    String → List BodyStep → WalkState → List Frame → Outcome (List Field) → Prop
  | done {owner : String} {s : WalkState} : BodyRuns c owner [] s [] (.ok [] s)
  | next {owner : String} {step : BodyStep} {rest : List BodyStep} {s s' : WalkState}
      {trace trace' : List Frame} {fields : List Field} {out : Outcome (List Field)}
      (hstep : StepRuns c step s trace (.ok fields s')) (h : BodyRuns c owner rest s' trace' out) :
      BodyRuns c owner (step :: rest) s (trace ++ trace') (out.map fun more _ => fields ++ more)
  | failed {owner : String} {step : BodyStep} {rest : List BodyStep} {s s' : WalkState}
      {trace : List Frame} {e : ReflectError} (hstep : StepRuns c step s trace (.error e s')) :
      BodyRuns c owner (step :: rest) s trace (.error (step.context owner e) s')

/-- A step of a body. -/
inductive StepRuns (c : Catalog) :
    BodyStep → WalkState → List Frame → Outcome (List Field) → Prop
  | plain {step : BodyStep} {s : WalkState} {decl : FieldDecl} {tag : Tag} {shape : Shape}
      (hitem : step.item = .field decl tag shape) (hplain : shape.reference? = none) :
      StepRuns c step s [] (.ok [fieldOf decl tag shape none] s)
  | back {step : BodyStep} {s : WalkState} {decl : FieldDecl} {tag : Tag} {shape : Shape}
      {name : String} (hitem : step.item = .field decl tag shape)
      (hname : shape.reference? = some name) (hon : name ∈ s.guard.names) :
      StepRuns c step s []
        (.ok [fieldOf decl tag shape (some (.cycle (s.guard.trace name)))] s)
  | linked {step : BodyStep} {s : WalkState} {decl : FieldDecl} {tag : Tag} {shape : Shape}
      {name : String} {trace : List Frame} {out : Outcome StructId}
      (hitem : step.item = .field decl tag shape) (hname : shape.reference? = some name)
      (hoff : name ∉ s.guard.names) (h : VisitRuns c name s trace out) :
      StepRuns c step s trace (out.map fun id s' =>
        [fieldOf decl tag shape (some (.struct id (s'.graph.get? id)))])
  | embedded {step : BodyStep} {s : WalkState} {record : String} {trace : List Frame}
      {out : Outcome StructId} (hitem : step.item = .embed record)
      (h : VisitRuns c record s trace out) :
      StepRuns c step s trace (out.map fun id s' => s'.graph.fieldsAt id)

end

/-! ## Equations of walks -/

section Equations

variable {c : Catalog} {v : String → Walk StructId} {s : WalkState} {step : BodyStep}
  {decl : FieldDecl} {tag : Tag} {shape : Shape} {name : String}

theorem walkRecord_of_lookup {r : RecordDecl} {id : StructId} (hnamed : r.isAnonymous = false)
    (hid : s.graph.lookup r.name = some id) : walkRecord c v r s = .ok id s := by
  simp only [walkRecord, hnamed, Bool.false_eq_true, if_false, hid]

theorem walkRecord_of_fresh {r : RecordDecl} (hnamed : r.isAnonymous = false)
    (hfresh : s.graph.lookup r.name = none) :
    walkRecord c v r s =
      match walkBody v r.name (bodySteps r.fields)
        ⟨(s.graph.insert (placeholder c r)).2, s.guard.push r.name⟩ with
      | .ok fields s' => .ok s.graph.size ⟨s'.graph.modify s.graph.size fun t =>
          { t with fields := finishFields s'.graph r.name fields }, s'.guard.popped⟩
      | .error e s' => .error e ⟨s'.graph.truncate s.graph.size, s'.guard.popped⟩ := by
  have hins := Graph.insert_of_lookup_eq_none (s := placeholder c r) hfresh
  rw [walkRecord, if_neg (by rw [hnamed]; exact Bool.false_ne_true), hins]
  simp only [hfresh, inFrame]
  cases walkBody v r.name (bodySteps r.fields) ⟨_, s.guard.push r.name⟩ <;> rfl

theorem walkBody_cons (owner : String) (step : BodyStep) (rest : List BodyStep) :
    walkBody v owner (step :: rest) s =
      match walkStep v step s with
      | .ok fields s' => Outcome.map (fun more _ => fields ++ more) (walkBody v owner rest s')
      | .error e s' => .error (step.context owner e) s' := by
  change EStateM.bind (EStateM.adaptExcept (step.context owner) (walkStep v step))
    (fun fields => EStateM.map (fields ++ ·) (walkBody v owner rest)) s = _
  simp only [EStateM.bind, EStateM.adaptExcept]
  cases walkStep v step s with
  | error e s' => rfl
  | ok fields s' =>
      simp only [EStateM.map]
      cases walkBody v owner rest s' <;> rfl

theorem walkStep_of_plain (hitem : step.item = .field decl tag shape)
    (hplain : shape.reference? = none) :
    walkStep v step s = .ok [fieldOf decl tag shape none] s := by
  rw [walkStep, hitem]
  simp only [analyze, hplain]
  rfl

theorem walkStep_of_reference (hitem : step.item = .field decl tag shape)
    (hname : shape.reference? = some name) :
    walkStep v step s =
      Outcome.map (fun referent _ => [fieldOf decl tag shape (some referent)])
        (refer v name s) := by
  rw [walkStep, hitem]
  simp only [analyze, hname]
  change EStateM.map _ (EStateM.map _ (refer v name)) s = _
  simp only [EStateM.map]
  cases refer v name s <;> rfl

theorem walkStep_of_back (hitem : step.item = .field decl tag shape)
    (hname : shape.reference? = some name) (hon : name ∈ s.guard.names) :
    walkStep v step s = .ok [fieldOf decl tag shape (some (.cycle (s.guard.trace name)))] s := by
  rw [walkStep_of_reference hitem hname, Walk.refer_apply,
    if_pos ((CycleGuard.contains_iff ..).2 hon)]
  rfl

theorem walkStep_of_linked (hitem : step.item = .field decl tag shape)
    (hname : shape.reference? = some name) (hoff : name ∉ s.guard.names) :
    walkStep v step s =
      Outcome.map (fun id s' => [fieldOf decl tag shape (some (.struct id (s'.graph.get? id)))])
        (v name s) := by
  rw [walkStep_of_reference hitem hname, Walk.refer_apply,
    if_neg fun hon => hoff ((CycleGuard.contains_iff ..).1 hon)]
  change Outcome.map _ (EStateM.bind (v name) _ s) = _
  unfold EStateM.bind
  cases v name s <;> rfl

theorem walkStep_of_embedded {record : String} (hitem : step.item = .embed record) :
    walkStep v step s = Outcome.map (fun id s' => s'.graph.fieldsAt id) (v record s) := by
  rw [walkStep, hitem]
  change EStateM.bind (v record) _ s = _
  rw [EStateM.bind]
  cases v record s <;> rfl

end Equations

/-! ## What is related is what is computed -/

section Sound

variable {c : Catalog}

mutual

theorem visit_of_runs {name : String} {s : WalkState} {trace : List Frame} {out : Outcome StructId}
    (h : VisitRuns c name s trace out) : s.graph.Indexed → visit c c.size name s = out := by
  match h with
  | .found hid => exact fun _ => Walk.visit_of_lookup hid
  | .unknown hfresh hunknown => exact fun _ => Walk.visit_of_unknown hfresh (.inr hunknown)
  | .record hfresh hr h =>
      intro hs
      have hwalk := walkRecord_of_runs h hs
      rw [visit_size c name hs, hfresh, hr]
      exact hwalk

theorem walkRecord_of_runs {r : RecordDecl} {s : WalkState} {trace : List Frame}
    {out : Outcome StructId} (h : RecordRuns c r s trace out) :
    s.graph.Indexed → walkRecord c (visit c c.size) r s = out := by
  match h with
  | .anonymous hanonymous =>
      intro _
      rw [walkRecord, if_pos hanonymous]
  | .found hnamed hid => exact fun _ => walkRecord_of_lookup hnamed hid
  | .filled hnamed hfresh h =>
      intro hs
      have hwalk := walkBody_of_runs h (hs.insert _)
      rw [walkRecord_of_fresh hnamed hfresh, hwalk]
  | .cut hnamed hfresh h =>
      intro hs
      have hwalk := walkBody_of_runs h (hs.insert _)
      rw [walkRecord_of_fresh hnamed hfresh, hwalk]

theorem walkBody_of_runs {owner : String} {steps : List BodyStep} {s : WalkState}
    {trace : List Frame} {out : Outcome (List Field)} (h : BodyRuns c owner steps s trace out) :
    s.graph.Indexed → walkBody (visit c c.size) owner steps s = out := by
  match h with
  | .done => exact fun _ => rfl
  | .next hstep h =>
      intro hs
      have hwalk := walkStep_of_runs hstep hs
      have hcontinues := (Walk.ensures_of_ok hwalk).1 ((steady_visit c c.size).walkStep _ hs)
      have hrest := walkBody_of_runs h hcontinues.indexed
      rw [walkBody_cons, hwalk, ← hrest]
  | .failed hstep =>
      intro hs
      have hwalk := walkStep_of_runs hstep hs
      rw [walkBody_cons, hwalk]

theorem walkStep_of_runs {step : BodyStep} {s : WalkState} {trace : List Frame}
    {out : Outcome (List Field)} (h : StepRuns c step s trace out) :
    s.graph.Indexed → walkStep (visit c c.size) step s = out := by
  match h with
  | .plain hitem hplain => exact fun _ => walkStep_of_plain hitem hplain
  | .back hitem hname hon => exact fun _ => walkStep_of_back hitem hname hon
  | .linked hitem hname hoff h =>
      intro hs
      have hwalk := visit_of_runs h hs
      rw [walkStep_of_linked hitem hname hoff, hwalk]
  | .embedded hitem h =>
      intro hs
      have hwalk := visit_of_runs h hs
      rw [walkStep_of_embedded hitem, hwalk]

end

/-- A step that succeeds only adds structs. -/
theorem StepRuns.continues {step : BodyStep} {s s' : WalkState} {trace : List Frame}
    {fields : List Field} (h : StepRuns c step s trace (.ok fields s')) (hs : s.graph.Indexed) :
    s.Continues s' :=
  (Walk.ensures_of_ok (walkStep_of_runs h hs)).1 ((steady_visit c c.size).walkStep step hs)

/-- A body that succeeds only adds structs. -/
theorem BodyRuns.continues {owner : String} {steps : List BodyStep} {s s' : WalkState}
    {trace : List Frame} {fields : List Field}
    (h : BodyRuns c owner steps s trace (.ok fields s')) (hs : s.graph.Indexed) :
    s.Continues s' :=
  (Walk.ensures_of_ok (walkBody_of_runs h hs)).1 ((steady_visit c c.size).walkBody owner steps hs)

/-- A visit that succeeds gives the place of the name. -/
theorem VisitRuns.lookup_eq {name : String} {s s' : WalkState} {trace : List Frame} {id : StructId}
    (h : VisitRuns c name s trace (.ok id s')) (hs : s.graph.Indexed) :
    s'.graph.lookup name = some id := by
  cases h with
  | found hid => exact hid
  | record hfresh hr h =>
      obtain ⟨-, rfl⟩ := Catalog.mem_of_find?_eq_some hr
      cases h with
      | found _ hid => exact hid
      | filled _ _ h =>
          have hcontinues := h.continues (hs.insert _)
          refine ((hs.insert _).extends hcontinues.indexed hcontinues.structs).lookup _ _ ?_
          rw [Graph.lookup_insert hfresh]
          exact if_pos rfl

end Sound

/-! ## What is computed is related -/

section Complete

variable {c : Catalog} {s : WalkState}

theorem exists_stepRuns (step : BodyStep)
    (h : ∀ name, ∃ trace, VisitRuns c name s trace (visit c c.size name s)) :
    ∃ trace, StepRuns c step s trace (walkStep (visit c c.size) step s) := by
  cases hitem : step.item with
  | field decl tag shape =>
      cases hname : shape.reference? with
      | none =>
          rw [walkStep_of_plain hitem hname]
          exact ⟨[], .plain hitem hname⟩
      | some name =>
          by_cases hon : name ∈ s.guard.names
          · rw [walkStep_of_back hitem hname hon]
            exact ⟨[], .back hitem hname hon⟩
          · obtain ⟨trace, hvisit⟩ := h name
            rw [walkStep_of_linked hitem hname hon]
            exact ⟨trace, .linked hitem hname hon hvisit⟩
  | embed record =>
      obtain ⟨trace, hvisit⟩ := h record
      rw [walkStep_of_embedded hitem]
      exact ⟨trace, .embedded hitem hvisit⟩

theorem exists_bodyRuns (owner : String) (steps : List BodyStep) (hs : s.graph.Indexed)
    (h : ∀ name s', s.Continues s' →
      ∃ trace, VisitRuns c name s' trace (visit c c.size name s')) :
    ∃ trace, BodyRuns c owner steps s trace (walkBody (visit c c.size) owner steps s) := by
  induction steps generalizing s with
  | nil => exact ⟨[], .done⟩
  | cons step rest ih =>
      obtain ⟨trace, hstep⟩ := exists_stepRuns step fun name => h name s (.refl hs)
      rw [walkBody_cons]
      cases hwalk : walkStep (visit c c.size) step s with
      | error e s' =>
          rw [hwalk] at hstep
          exact ⟨trace, .failed hstep⟩
      | ok fields s' =>
          rw [hwalk] at hstep
          have hcontinues :=
            (Walk.ensures_of_ok hwalk).1 ((steady_visit c c.size).walkStep step hs)
          obtain ⟨trace', hrest⟩ := ih hcontinues.indexed fun name s'' hlater =>
            h name s'' (hcontinues.trans hlater)
          exact ⟨trace ++ trace', .next hstep hrest⟩

theorem exists_recordRuns (r : RecordDecl) (hs : s.graph.Indexed)
    (h : s.graph.lookup r.name = none → ∀ name s',
      WalkState.Continues ⟨(s.graph.insert (placeholder c r)).2, s.guard.push r.name⟩ s' →
      ∃ trace, VisitRuns c name s' trace (visit c c.size name s')) :
    ∃ trace, RecordRuns c r s trace (walkRecord c (visit c c.size) r s) := by
  cases hnamed : r.isAnonymous with
  | true =>
      rw [walkRecord, if_pos hnamed]
      exact ⟨[], .anonymous hnamed⟩
  | false =>
      cases hid : s.graph.lookup r.name with
      | some id =>
          rw [walkRecord_of_lookup hnamed hid]
          exact ⟨[], .found hnamed hid⟩
      | none =>
          obtain ⟨trace, hbody⟩ :=
            exists_bodyRuns r.name (bodySteps r.fields) (hs.insert (placeholder c r)) (h hid)
          rw [walkRecord_of_fresh hnamed hid]
          refine ⟨⟨r, s.guard.push r.name⟩ :: trace, ?_⟩
          cases hwalk : walkBody (visit c c.size) r.name (bodySteps r.fields)
              ⟨(s.graph.insert (placeholder c r)).2, s.guard.push r.name⟩ with
          | ok fields s' =>
              rw [hwalk] at hbody
              exact .filled hnamed hid hbody
          | error e s' =>
              rw [hwalk] at hbody
              exact .cut hnamed hid hbody

/-- Every visit comes to an end: each record that comes under analysis leaves fewer declared names
without a struct. -/
theorem exists_visitRuns (c : Catalog) (name : String) (hs : s.graph.Indexed) :
    ∃ trace, VisitRuns c name s trace (visit c c.size name s) := by
  induction hmissing : (missingNames c s.graph).length using Nat.strongRecOn
    generalizing name s with
  | ind k ih =>
      subst hmissing
      have hvisit := visit_size c name hs
      cases hid : s.graph.lookup name with
      | some id =>
          rw [Walk.visit_of_lookup hid]
          exact ⟨[], .found hid⟩
      | none =>
          cases hr : c.find? name with
          | none =>
              rw [Walk.visit_of_unknown hid (.inr hr)]
              exact ⟨[], .unknown hid hr⟩
          | some r =>
              obtain ⟨hmem, rfl⟩ := Catalog.mem_of_find?_eq_some hr
              obtain ⟨trace, hrecord⟩ := exists_recordRuns r hs fun _ name s' hcontinues =>
                ih _ (length_missingNames_lt_of_continues hs hmem hid hcontinues) name
                  hcontinues.indexed rfl
              rw [hid, hr] at hvisit
              rw [hvisit]
              exact ⟨trace, .record hid hr hrecord⟩

end Complete

end RecordSchema.Reflection
