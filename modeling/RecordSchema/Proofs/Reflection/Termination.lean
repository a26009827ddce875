import Mathlib.Data.List.Perm.Subperm
import RecordSchema.Proofs.Catalog.Reference
import RecordSchema.Proofs.Reflection.Derivation

/-!
# Termination

Every call on a reflector comes to an end, whatever the declarations refer to.  A record that comes
under analysis has no struct yet and gets one at once, and the structs of a walk are only dropped
when the whole call fails.  So in one call no record is analysed twice, and the names under analysis
are all different.
-/

namespace RecordSchema.Reflection

open Schema (Field Graph StructId)

variable {c : Catalog} {names : List String} {s s' : WalkState} {trace trace' : List Frame}

/-! ## States and traces -/

/-- The names under analysis are different, have structs and are among `names`. -/
structure WalkState.Orderly (names : List String) (s : WalkState) : Prop where
  indexed : s.graph.Indexed
  nodup : s.guard.names.Nodup
  present : s.guard.names ⊆ s.graph.names
  allowed : s.guard.names ⊆ names

namespace WalkState.Orderly

theorem continues (h : s.Orderly names) (hcontinues : s.Continues s') : s'.Orderly names where
  indexed := hcontinues.indexed
  nodup := hcontinues.guard ▸ h.nodup
  present := by
    rw [hcontinues.guard]
    exact List.Subset.trans h.present (Graph.names_subset_of_prefix hcontinues.structs)
  allowed := hcontinues.guard ▸ h.allowed

theorem name_notMem_guard (h : s.Orderly names) {name : String}
    (hfresh : s.graph.lookup name = none) : name ∉ s.guard.names := fun hname =>
  h.indexed.lookup_eq_none_iff.1 hfresh (h.present hname)

/-- A record without a struct can come under analysis. -/
theorem enter (h : s.Orderly names) {r : RecordDecl} (hfresh : s.graph.lookup r.name = none)
    (hr : r.name ∈ names) :
    WalkState.Orderly names ⟨(s.graph.insert (placeholder c r)).2, s.guard.push r.name⟩ where
  indexed := h.indexed.insert _
  nodup := List.nodup_append.2 ⟨h.nodup, by simp, fun a ha b hb hab =>
    h.name_notMem_guard hfresh (List.mem_singleton.1 hb ▸ hab ▸ ha)⟩
  present := by
    rw [Graph.names_insert hfresh]
    exact List.append_subset.2 ⟨fun _ hn => List.mem_append_left _ (h.present hn),
      List.subset_append_right _ _⟩
  allowed := List.append_subset.2 ⟨h.allowed, fun _ hn => List.mem_singleton.1 hn ▸ hr⟩

end WalkState.Orderly

/-- The records of a trace are analysed once each and have no struct in `s`; the names under
analysis with each of them are different and among `names`. -/
structure Once (names : List String) (s : WalkState) (trace : List Frame) : Prop where
  nodup : (trace.map Frame.name).Nodup
  fresh : ∀ f ∈ trace, f.name ∉ s.graph.names
  guard_nodup : ∀ f ∈ trace, f.guard.names.Nodup
  guard_allowed : ∀ f ∈ trace, f.guard.names ⊆ names

namespace Once

theorem nil : Once names s [] where
  nodup := List.nodup_nil
  fresh _ hf := by cases hf
  guard_nodup _ hf := by cases hf
  guard_allowed _ hf := by cases hf

/-- What is analysed below a record comes after it. -/
theorem cons {r : RecordDecl} (hfresh : s.graph.lookup r.name = none)
    (hs : WalkState.Orderly names ⟨(s.graph.insert (placeholder c r)).2, s.guard.push r.name⟩)
    (h : Once names ⟨(s.graph.insert (placeholder c r)).2, s.guard.push r.name⟩ trace)
    (hindexed : s.graph.Indexed) : Once names s (⟨r, s.guard.push r.name⟩ :: trace) := by
  have hbelow : ∀ f ∈ trace, f.name ∉ s.graph.names ∧ f.name ≠ r.name := by
    intro f hf
    have hnew := h.fresh f hf
    rw [Graph.names_insert hfresh, List.mem_append, List.mem_singleton, not_or] at hnew
    exact hnew
  refine ⟨List.nodup_cons.2 ⟨fun hmem => ?_, h.nodup⟩,
    List.forall_mem_cons.2 ⟨hindexed.lookup_eq_none_iff.1 hfresh, fun f hf => (hbelow f hf).1⟩,
    List.forall_mem_cons.2 ⟨hs.nodup, h.guard_nodup⟩,
    List.forall_mem_cons.2 ⟨hs.allowed, h.guard_allowed⟩⟩
  obtain ⟨f, hf, hname⟩ := List.mem_map.1 hmem
  exact (hbelow f hf).2 hname

/-- What is analysed later has no struct by then, unlike what was analysed before. -/
theorem append (h : Once names s trace) (hheld : ∀ f ∈ trace, f.name ∈ s'.graph.names)
    (hcontinues : s.Continues s') (h' : Once names s' trace') : Once names s (trace ++ trace') where
  nodup := by
    rw [List.map_append]
    refine List.nodup_append.2 ⟨h.nodup, h'.nodup, fun a ha b hb hab => ?_⟩
    obtain ⟨f, hf, rfl⟩ := List.mem_map.1 ha
    obtain ⟨f', hf', rfl⟩ := List.mem_map.1 hb
    exact h'.fresh f' hf' (hab ▸ hheld f hf)
  fresh := List.forall_mem_append.2 ⟨h.fresh, fun f hf hmem =>
    h'.fresh f hf (Graph.names_subset_of_prefix hcontinues.structs hmem)⟩
  guard_nodup := List.forall_mem_append.2 ⟨h.guard_nodup, h'.guard_nodup⟩
  guard_allowed := List.forall_mem_append.2 ⟨h.guard_allowed, h'.guard_allowed⟩

/-- No more names are under analysis at a time than are allowed. -/
theorem depth_le (h : Once names s trace) {f : Frame} (hf : f ∈ trace) :
    f.guard.depth ≤ names.length :=
  (List.subperm_of_subset (h.guard_nodup f hf) (h.guard_allowed f hf)).length_le

end Once

/-! ## Walks -/

/-- If a walk succeeds, the records of its trace have structs. -/
def Outcome.Holds {α : Type} (trace : List Frame) : Outcome α → Prop
  | .ok _ s => ∀ f ∈ trace, f.name ∈ s.graph.names
  | .error _ _ => True

theorem Outcome.Holds.map {α β : Type} {out : Outcome α} (h : out.Holds trace)
    (f : α → WalkState → β) : (out.map f).Holds trace := by
  cases out with
  | ok _ _ => exact h
  | error _ _ => trivial

/-- What has a struct where a walk starts has one where it succeeds. -/
theorem Outcome.Holds.append {α : Type} {out : Outcome α} (h : out.Holds trace')
    (hheld : ∀ f ∈ trace, f.name ∈ s.graph.names)
    (hcontinues : ∀ a s', out = .ok a s' → s.Continues s') : out.Holds (trace ++ trace') := by
  cases out with
  | ok a s' =>
      have hsubset := Graph.names_subset_of_prefix (hcontinues a s' rfl).structs
      exact List.forall_mem_append.2 ⟨fun f hf => hsubset (hheld f hf), h⟩
  | error _ _ => trivial

mutual

theorem VisitRuns.once {name : String} {s : WalkState} {trace : List Frame}
    {out : Outcome StructId} (hnames : c.names ⊆ names) (h : VisitRuns c name s trace out) :
    s.Orderly names → Once names s trace ∧ out.Holds trace := by
  match h with
  | .found _ => exact fun _ => ⟨.nil, fun _ hf => by cases hf⟩
  | .unknown _ _ => exact fun _ => ⟨.nil, trivial⟩
  | .record _ hr hrecord =>
      have hmem := (Catalog.mem_of_find?_eq_some hr).1
      exact RecordRuns.once hnames hrecord (hnames (List.mem_map_of_mem hmem))

theorem RecordRuns.once {r : RecordDecl} {s : WalkState} {trace : List Frame}
    {out : Outcome StructId} (hnames : c.names ⊆ names) (h : RecordRuns c r s trace out) :
    r.name ∈ names → s.Orderly names → Once names s trace ∧ out.Holds trace := by
  match h with
  | .anonymous _ => exact fun _ _ => ⟨.nil, trivial⟩
  | .found _ _ => exact fun _ _ => ⟨.nil, fun _ hf => by cases hf⟩
  | .filled _ hfresh hbody =>
      intro hr hs
      have henter := hs.enter (c := c) hfresh hr
      obtain ⟨honce, hholds⟩ := BodyRuns.once hnames hbody henter
      refine ⟨.cons hfresh henter honce hs.indexed, ?_⟩
      have hown : r.name ∈ (s.graph.insert (placeholder c r)).2.names := by
        rw [Graph.names_insert hfresh]
        exact List.mem_concat_self
      have hcontinues := hbody.continues henter.indexed
      rw [Outcome.Holds, names_modify_fields]
      exact List.forall_mem_cons.2
        ⟨Graph.names_subset_of_prefix hcontinues.structs hown, hholds⟩
  | .cut _ hfresh hbody =>
      intro hr hs
      have henter := hs.enter (c := c) hfresh hr
      exact ⟨.cons hfresh henter (BodyRuns.once hnames hbody henter).1 hs.indexed, trivial⟩

theorem BodyRuns.once {owner : String} {steps : List BodyStep} {s : WalkState}
    {trace : List Frame} {out : Outcome (List Field)} (hnames : c.names ⊆ names)
    (h : BodyRuns c owner steps s trace out) :
    s.Orderly names → Once names s trace ∧ out.Holds trace := by
  match h with
  | .done => exact fun _ => ⟨.nil, fun _ hf => by cases hf⟩
  | .next hstep hrest =>
      intro hs
      have hcontinues := hstep.continues hs.indexed
      obtain ⟨honce, hholds⟩ := StepRuns.once hnames hstep hs
      obtain ⟨honce', hholds'⟩ := BodyRuns.once hnames hrest (hs.continues hcontinues)
      refine ⟨honce.append hholds hcontinues honce', ((hholds'.append hholds) ?_).map _⟩
      rintro more s'' rfl
      exact hrest.continues hcontinues.indexed
  | .failed hstep => exact fun hs => ⟨(StepRuns.once hnames hstep hs).1, trivial⟩

theorem StepRuns.once {step : BodyStep} {s : WalkState} {trace : List Frame}
    {out : Outcome (List Field)} (hnames : c.names ⊆ names) (h : StepRuns c step s trace out) :
    s.Orderly names → Once names s trace ∧ out.Holds trace := by
  match h with
  | .plain _ _ => exact fun _ => ⟨.nil, fun _ hf => by cases hf⟩
  | .back _ _ _ => exact fun _ => ⟨.nil, fun _ hf => by cases hf⟩
  | .linked _ _ _ hvisit =>
      intro hs
      obtain ⟨honce, hholds⟩ := VisitRuns.once hnames hvisit hs
      exact ⟨honce, hholds.map _⟩
  | .embedded _ hvisit =>
      intro hs
      obtain ⟨honce, hholds⟩ := VisitRuns.once hnames hvisit hs
      exact ⟨honce, hholds.map _⟩

end

/-! ## Calls -/

namespace Call

/-- The record a call asks for, if it has a name. -/
def target? : Call → Option String
  | reflect name => some name
  | reflectType ty => ty.recordName?
  | reflectRecord decl => some decl.name

/-- The walk of a call, without a bound. -/
inductive Runs (c : Catalog) (s : WalkState) : Call → List Frame → Outcome StructId → Prop
  | reflect {name : String} {trace : List Frame} {out : Outcome StructId}
      (h : VisitRuns c name s trace out) : Runs c s (.reflect name) trace out
  | named {ty : TypeExpr} {name : String} {trace : List Frame} {out : Outcome StructId}
      (hty : ty.recordName? = some name) (h : VisitRuns c name s trace out) :
      Runs c s (.reflectType ty) trace out
  | inline {ty : TypeExpr} {r : RecordDecl} (hty : ty.stripOptional = .inline r) :
      Runs c s (.reflectType ty) [] (.error .anonymous s)
  | other {ty : TypeExpr} (hname : ty.recordName? = none)
      (hinline : ∀ r, ty.stripOptional ≠ .inline r) :
      Runs c s (.reflectType ty) []
        (.error (.notARecord ty.stripOptional.display ty.stripOptional.kindName) s)
  | reflectRecord {decl : RecordDecl} {trace : List Frame} {out : Outcome StructId}
      (h : RecordRuns c decl s trace out) : Runs c s (.reflectRecord decl) trace out

variable {k : Call} {out : Outcome StructId}

theorem Runs.once (h : k.Runs c s trace out) (hnames : c.names ⊆ names)
    (htarget : ∀ name, k.target? = some name → name ∈ names) (hs : s.Orderly names) :
    Once names s trace := by
  cases h with
  | reflect h => exact (h.once hnames hs).1
  | named _ h => exact (h.once hnames hs).1
  | inline _ => exact .nil
  | other _ _ => exact .nil
  | reflectRecord h => exact (h.once hnames (htarget _ rfl) hs).1

end Call

namespace Reflector

/-- What a reflector answers when a walk has ended. -/
def answer (r : Reflector) : Outcome StructId → Except ReflectError StructId × Reflector
  | .ok id s => (.ok id, { r with toWalkState := s })
  | .error e s => (.error e, { r with toWalkState := s })

theorem run_eq_answer (r : Reflector) (w : Walk StructId) :
    r.run w = r.answer (w r.toWalkState) := by
  rw [run]
  cases w r.toWalkState <;> rfl

variable {r : Reflector}

theorem reflectType_of_recordName? {ty : TypeExpr} {name : String}
    (hty : ty.recordName? = some name) : r.reflectType ty = r.reflect name := by
  rw [reflectType, TypeExpr.recordName?_eq_some_iff.1 hty]

/-- A call answers with the outcome of its walk. -/
theorem call_of_runs {k : Call} {out : Outcome StructId} (hcatalog : r.catalog = c)
    (hs : r.graph.Indexed) (h : k.Runs c r.toWalkState trace out) : r.call k = r.answer out := by
  subst hcatalog
  have hreflect {name : String} (h : VisitRuns r.catalog name r.toWalkState trace out) :
      r.reflect name = r.answer out := by
    rw [reflect, run_eq_answer, visit_of_runs h hs]
  cases h with
  | reflect h => exact hreflect h
  | named hty h => exact (reflectType_of_recordName? hty).trans (hreflect h)
  | inline hty =>
      rw [call, reflectType, hty]
      rfl
  | other hname hinline =>
      rw [call, reflectType]
      split
      · rename_i hty
        rw [TypeExpr.recordName?_eq_some_iff.2 hty] at hname
        cases hname
      · rename_i hty
        exact absurd hty (hinline _)
      · rfl
  | reflectRecord h => rw [call, reflectRecord, run_eq_answer, walkRecord_of_runs h hs]

/-- A request that succeeds gives the place of the record. -/
theorem lookup_of_reflect (hs : r.graph.Indexed) {name : String} {id : StructId}
    (hok : (r.reflect name).1 = .ok id) : (r.reflect name).2.graph.lookup name = some id := by
  obtain ⟨trace, h⟩ := exists_visitRuns r.catalog name hs
  have hcall := call_of_runs rfl hs (.reflect h)
  rw [call] at hcall
  rw [hcall] at hok ⊢
  cases hout : visit r.catalog r.catalog.size name r.toWalkState with
  | error e s =>
      rw [hout] at hok
      cases hok
  | ok id' s =>
      rw [hout] at hok h
      cases hok
      exact h.lookup_eq hs

/-- The walk of every call comes to an end. -/
theorem exists_runs (c : Catalog) (hs : s.graph.Indexed) (k : Call) :
    ∃ trace out, k.Runs c s trace out := by
  cases k with
  | reflect name =>
      obtain ⟨trace, h⟩ := exists_visitRuns c name hs
      exact ⟨trace, _, .reflect h⟩
  | reflectType ty =>
      cases hname : ty.recordName? with
      | some name =>
          obtain ⟨trace, h⟩ := exists_visitRuns c name hs
          exact ⟨trace, _, .named hname h⟩
      | none =>
          by_cases hinline : ∃ d, ty.stripOptional = .inline d
          · obtain ⟨d, hty⟩ := hinline
            exact ⟨[], _, .inline hty⟩
          · exact ⟨[], _, .other hname fun d hty => hinline ⟨d, hty⟩⟩
  | reflectRecord decl =>
      obtain ⟨trace, h⟩ := exists_recordRuns decl hs fun _ name _ hcontinues =>
        exists_visitRuns c name hcontinues.indexed
      exact ⟨trace, _, .reflectRecord h⟩

/-- After any calls the walk of another one comes to an end, without any bound on it, and the call
answers with its outcome.  No record is analysed twice on the way, and none that has a struct; the
names under analysis are always different, and if the call asks for a declared record there are
never more of them than records in the catalog. -/
theorem after_call_terminates (c : Catalog) (earlier : List Call) (k : Call) :
    (∃ trace out, k.Runs c (after c earlier).toWalkState trace out) ∧
      ∀ trace out, k.Runs c (after c earlier).toWalkState trace out →
        (after c earlier).call k = (after c earlier).answer out ∧
        (trace.map Frame.name).Nodup ∧
        (∀ f ∈ trace, f.name ∉ (after c earlier).graph.names ∧ f.guard.names.Nodup) ∧
        ((∀ name, k.target? = some name → c.contains name = true) →
          ∀ f ∈ trace, f.guard.depth ≤ c.size) := by
  have hindexed := after_indexed c earlier
  have horderly (names : List String) : (after c earlier).Orderly names := by
    have hguard : (after c earlier).guard.names = [] := by rw [after_guard]; rfl
    exact ⟨hindexed, by simp [hguard], by simp [hguard], by simp [hguard]⟩
  refine ⟨exists_runs c hindexed k, fun trace out h => ⟨?_, ?_⟩⟩
  · exact call_of_runs (after_catalog c earlier) hindexed h
  · have honce : Once (k.target?.toList ++ c.names) _ trace :=
      h.once (List.subset_append_right _ _)
        (fun name hname => List.mem_append_left _ (by rw [hname]; exact List.mem_singleton_self _))
        (horderly _)
    refine ⟨honce.nodup, fun f hf => ⟨honce.fresh f hf, honce.guard_nodup f hf⟩, ?_⟩
    intro hdeclared f hf
    have hnames : c.names.length = c.size := List.length_map _
    rw [← hnames]
    exact (h.once (List.Subset.refl _)
      (fun name hname => (c.mem_names_iff_contains name).2 (hdeclared name hname))
      (horderly _)).depth_le hf

end Reflector

end RecordSchema.Reflection
