import RecordSchema.Proofs.Schema.Index
import RecordSchema.Reflection.Walk

/-!
# What a walk ensures

A walk ensures a condition on its result and another one on its failure, each together with the
state that is reached.  There is one rule for each way in which walks are put together.
-/

namespace RecordSchema.Reflection

open Schema (Graph StructId)

namespace Walk

variable {α β : Type} {s : WalkState}

/-- The walk from `s` ends with `post`, or fails with `fail`. -/
def Ensures (w : Walk α) (s : WalkState) (post : α → WalkState → Prop)
    (fail : ReflectError → WalkState → Prop) : Prop :=
  match w s with
  | .ok a s' => post a s'
  | .error e s' => fail e s'

variable {post mid : α → WalkState → Prop} {fail fail' : ReflectError → WalkState → Prop}

theorem ensures_of_ok {w : Walk α} {a : α} {s' : WalkState} (h : w s = .ok a s') :
    w.Ensures s post fail ↔ post a s' := by
  rw [Ensures, h]

theorem ensures_of_error {w : Walk α} {e : ReflectError} {s' : WalkState}
    (h : w s = .error e s') : w.Ensures s post fail ↔ fail e s' := by
  rw [Ensures, h]

theorem ensures_pure (a : α) : (pure a : Walk α).Ensures s post fail ↔ post a s := Iff.rfl

theorem Ensures.mono {w : Walk α} (h : w.Ensures s mid fail)
    (hok : ∀ a s', mid a s' → post a s') (herror : ∀ e s', fail e s' → fail' e s') :
    w.Ensures s post fail' := by
  rw [Ensures] at h ⊢
  split at h
  · exact hok _ _ h
  · exact herror _ _ h

theorem Ensures.and {w : Walk α} (h : w.Ensures s post fail) (h' : w.Ensures s mid fail') :
    w.Ensures s (fun a s' => post a s' ∧ mid a s') (fun e s' => fail e s' ∧ fail' e s') := by
  rw [Ensures] at h h' ⊢
  split at h <;> simp_all

theorem Ensures.bind {w : Walk α} {k : α → Walk β} {post : β → WalkState → Prop}
    (h : w.Ensures s mid fail) (hk : ∀ a s', mid a s' → (k a).Ensures s' post fail')
    (herror : ∀ e s', fail e s' → fail' e s') : (w >>= k).Ensures s post fail' := by
  rw [Ensures] at h
  change Ensures (EStateM.bind w k) s post fail'
  rw [Ensures, EStateM.bind]
  cases hw : w s with
  | ok a s' =>
      rw [hw] at h
      exact hk a s' h
  | error e s' =>
      rw [hw] at h
      exact herror e s' h

theorem ensures_map {w : Walk α} (f : α → β) {post : β → WalkState → Prop} :
    (f <$> w).Ensures s post fail ↔ w.Ensures s (fun a => post (f a)) fail := by
  change Ensures (EStateM.map f w) s post fail ↔ _
  rw [Ensures, Ensures, EStateM.map]
  cases w s <;> exact Iff.rfl

theorem ensures_adaptExcept {w : Walk α} (f : ReflectError → ReflectError) :
    Ensures (EStateM.adaptExcept f w) s post fail ↔ w.Ensures s post fun e => fail (f e) := by
  rw [Ensures, Ensures, EStateM.adaptExcept]
  cases w s <;> exact Iff.rfl

theorem refer_apply (v : String → Walk StructId) (name : String) (s : WalkState) :
    refer v name s =
      if s.guard.contains name then .ok (.cycle (s.guard.trace name)) s
      else (v name >>= fun id s' => .ok (.struct id (s'.graph.get? id)) s') s := by
  change (if s.guard.contains name then _ else _ : Walk Referent) s = _
  split <;> rfl

/-- A reference that leads back is followed without a visit. -/
theorem ensures_refer_of_mem {v : String → Walk StructId} {name : String}
    {post : Referent → WalkState → Prop} (h : name ∈ s.guard.names) :
    (refer v name).Ensures s post fail ↔ post (.cycle (s.guard.trace name)) s := by
  refine ensures_of_ok ?_
  rw [refer_apply, if_pos ((CycleGuard.contains_iff ..).2 h)]

/-- Any other reference is followed by visiting it. -/
theorem Ensures.refer {v : String → Walk StructId} {name : String}
    {mid : StructId → WalkState → Prop} {post : Referent → WalkState → Prop}
    (hv : (v name).Ensures s mid fail) (h : name ∉ s.guard.names)
    (hpost : ∀ id s', mid id s' → post (.struct id (s'.graph.get? id)) s') :
    (Reflection.refer v name).Ensures s post fail := by
  rw [Ensures, refer_apply, if_neg fun hc => h ((CycleGuard.contains_iff ..).1 hc)]
  exact hv.bind (fun id s' hid => hpost id s' hid) fun _ _ he => he

/-! ## Records -/

variable {c : Catalog} {v : String → Walk StructId} {r : RecordDecl}
  {post : StructId → WalkState → Prop}

theorem ensures_walkRecord_of_anonymous (h : r.isAnonymous = true) :
    (walkRecord c v r).Ensures s post fail ↔ fail .anonymous s :=
  ensures_of_error (by rw [walkRecord, if_pos h])

theorem ensures_walkRecord_of_lookup {id : StructId} (h : r.isAnonymous = false)
    (hid : s.graph.lookup r.name = some id) :
    (walkRecord c v r).Ensures s post fail ↔ post id s :=
  ensures_of_ok (by simp only [walkRecord, h, Bool.false_eq_true, if_false, hid])

/-- A record that is not in the graph is walked with its placeholder added and its name under
analysis; then its fields are filled in, or everything added is cut off. -/
theorem ensures_walkRecord_of_fresh (h : r.isAnonymous = false)
    (hid : s.graph.lookup r.name = none) :
    (walkRecord c v r).Ensures s post fail ↔
      (walkBody v r.name (bodySteps r.fields)).Ensures
        ⟨(s.graph.insert (placeholder c r)).2, s.guard.push r.name⟩
        (fun fields s' => post s.graph.size
          ⟨s'.graph.modify s.graph.size fun t =>
            { t with fields := finishFields s'.graph r.name fields }, s'.guard.popped⟩)
        (fun e s' => fail e ⟨s'.graph.truncate s.graph.size, s'.guard.popped⟩) := by
  have hins := Graph.insert_of_lookup_eq_none (s := placeholder c r) hid
  rw [Ensures, Ensures, walkRecord, if_neg (by rw [h]; exact Bool.false_ne_true), hins]
  simp only [hid, inFrame]
  cases walkBody v r.name (bodySteps r.fields) ⟨_, s.guard.push r.name⟩ <;> exact Iff.rfl

theorem visit_of_lookup {room : Nat} {name : String} {id : StructId}
    (hid : s.graph.lookup name = some id) : visit c room name s = .ok id s := by
  rw [visit.eq_def]
  simp only [hid]

theorem visit_of_record {room : Nat} {name : String} (hid : s.graph.lookup name = none)
    (hr : c.find? name = some r) :
    visit c (room + 1) name s = walkRecord c (visit c room) r s := by
  rw [visit.eq_def]
  simp only [hid, hr]

theorem visit_of_unknown {room : Nat} {name : String} (hid : s.graph.lookup name = none)
    (hr : room = 0 ∨ c.find? name = none) :
    visit c room name s = .error (.unknownRecord name) s := by
  rw [visit.eq_def]
  simp only [hid]
  rcases hr with rfl | hr
  · rfl
  · rw [hr]
    cases room <;> rfl

/-- A visit finds the struct in the graph, or walks the record with less room, or fails. -/
theorem Ensures.visit {room : Nat} {name : String}
    (hfound : ∀ id, s.graph.lookup name = some id → post id s)
    (hunknown : fail (.unknownRecord name) s)
    (hrecord : ∀ less r, less < room → s.graph.lookup name = none → c.find? name = some r →
      (walkRecord c (Reflection.visit c less) r).Ensures s post fail) :
    (Reflection.visit c room name).Ensures s post fail := by
  cases hid : s.graph.lookup name with
  | some id => exact (ensures_of_ok (visit_of_lookup hid)).2 (hfound id hid)
  | none =>
      cases hr : c.find? name with
      | none => exact (ensures_of_error (visit_of_unknown hid (.inr hr))).2 hunknown
      | some r =>
          cases room with
          | zero => exact (ensures_of_error (visit_of_unknown hid (.inl rfl))).2 hunknown
          | succ room =>
              rw [Ensures, visit_of_record hid hr]
              exact hrecord room r (Nat.lt_succ_self room) hid hr

end Walk

end RecordSchema.Reflection
