import Mathlib.Logic.Relation
import RecordSchema.Proofs.Reflection.Growth

/-!
# Which records were under analysis

The names that were under analysis with a record can be told from the graph and the catalog alone: a
name is one of them just when references lead from it to the record without a struct that was in the
graph before that name.  Such references must all be followed before the name leaves, and as long as
it has not left, whatever comes into the graph comes under analysis with it.
-/

namespace RecordSchema.Reflection

open Schema (Graph)

/-- The catalog's declaration of `a` refers to `b`. -/
def RefersTo (c : Catalog) (a b : String) : Prop :=
  ∃ r, c.find? a = some r ∧ b ∈ references r.fields

/-- The struct of `b` did not come into the graph before that of `a`. -/
def NotBefore (g : Graph) (a b : String) : Prop :=
  ∃ i j, g.lookup a = some i ∧ g.lookup b = some j ∧ i ≤ j

/-- References lead from `a` to `b` without a struct that was in the graph before that of `a`. -/
def LeadsTo (c : Catalog) (g : Graph) (a b : String) : Prop :=
  Relation.ReflTransGen (fun x y => RefersTo c x y ∧ NotBefore g a y) a b

variable {c : Catalog} {g g' : Graph} {a b : String}

theorem NotBefore.mono (h : NotBefore g a b) (hkeeps : ∀ name id, g.lookup name = some id →
    g'.lookup name = some id) : NotBefore g' a b := by
  obtain ⟨i, j, hi, hj, hle⟩ := h
  exact ⟨i, j, hkeeps a i hi, hkeeps b j hj, hle⟩

theorem LeadsTo.mono (h : LeadsTo c g a b) (hkeeps : ∀ name id, g.lookup name = some id →
    g'.lookup name = some id) : LeadsTo c g' a b :=
  Relation.ReflTransGen.mono (fun _ _ hstep => ⟨hstep.1, hstep.2.mono hkeeps⟩) _ _ h

/-- Declarations that the catalog has under their names. -/
def Declared (c : Catalog) (r : RecordDecl) : Prop := c.find? r.name = some r

namespace Grown

variable {s : WalkState} {frames : List Frame} {f : Frame}

theorem known_decl {known : RecordDecl → Prop} (h : Grown c known s frames) (hf : f ∈ frames) :
    known f.decl := by
  induction h with
  | start => cases hf
  | enter _ hknown _ _ ih =>
      rcases List.mem_append.1 hf with hf | hf
      · exact ih hf
      · rwa [List.mem_singleton.1 hf]
  | leave _ _ _ _ ih => exact ih hf

theorem lookup_enter {r : RecordDecl} (hfresh : s.graph.lookup r.name = none) {name : String}
    (hne : name ≠ r.name) :
    (s.graph.insert (placeholder c r)).2.lookup name = s.graph.lookup name := by
  rw [Graph.lookup_insert hfresh]
  exact if_neg hne

theorem lookup_enter_of_lookup {r : RecordDecl} (hfresh : s.graph.lookup r.name = none)
    (name : String) (id : Schema.StructId) (hid : s.graph.lookup name = some id) :
    (s.graph.insert (placeholder c r)).2.lookup name = some id := by
  refine (lookup_enter hfresh fun hname => ?_).trans hid
  rw [hname, hfresh] at hid
  cases hid

/-- A new struct does not come between those that are there. -/
theorem notBefore_of_enter {known : RecordDecl → Prop} (h : Grown c known s frames)
    {r : RecordDecl} (hfresh : s.graph.lookup r.name = none) (ha : a ∈ s.graph.names)
    (hb : b ∈ s.graph.names) (hbefore : NotBefore (s.graph.insert (placeholder c r)).2 a b) :
    NotBefore s.graph a b := by
  obtain ⟨i, j, hi, hj, hle⟩ := hbefore
  obtain ⟨i', hi'⟩ := h.indexed.mem_names_iff.1 ha
  obtain ⟨j', hj'⟩ := h.indexed.mem_names_iff.1 hb
  rw [lookup_enter_of_lookup hfresh a i' hi'] at hi
  rw [lookup_enter_of_lookup hfresh b j' hj'] at hj
  exact ⟨i, j, hi'.trans hi, hj'.trans hj, hle⟩

/-- The names under analysis with a record are in the graph. -/
theorem guard_subset_names_of_mem {known : RecordDecl → Prop} (h : Grown c known s frames)
    (hf : f ∈ frames) (ha : a ∈ f.guard.names) : a ∈ s.graph.names := by
  induction h with
  | start => cases hf
  | enter h _ hfresh _ ih =>
      rw [Graph.names_insert hfresh]
      rcases List.mem_append.1 hf with hf | hf
      · exact List.mem_append_left _ (ih hf)
      · rw [List.mem_singleton.1 hf] at ha
        rcases List.mem_append.1 ha with ha | ha
        · exact List.mem_append_left _ (h.guard_subset_names ha)
        · exact List.mem_append_right _ ha
  | leave _ _ _ _ ih =>
      rw [names_modify_fields]
      exact ih hf

/-- The names under analysis with a record lead to it. -/
theorem leadsTo_of_mem_guard (h : Grown c (Declared c) s frames) (hf : f ∈ frames)
    (ha : a ∈ f.guard.names) : LeadsTo c s.graph a f.name := by
  induction h generalizing f with
  | start => cases hf
  | @enter s frames r h _ hfresh hasked ih =>
      rcases List.mem_append.1 hf with hf | hf
      · exact (ih hf ha).mono (lookup_enter_of_lookup hfresh)
      · rw [List.mem_singleton.1 hf] at ha ⊢
        rcases List.mem_append.1 ha with ha | ha
        · -- the name leads to the innermost record so far, and that refers to the new one
          obtain ⟨inner, hinner, hnames⟩ :=
            h.exists_frame_of_prefix List.prefix_rfl (List.ne_nil_of_mem ha)
          have hguard : inner.guard = s.guard := congrArg CycleGuard.mk hnames
          have hlead := (ih hinner (hguard ▸ ha)).mono (lookup_enter_of_lookup (c := c) hfresh)
          obtain ⟨i, hi⟩ := h.indexed.mem_names_iff.1 (h.guard_subset_names ha)
          refine hlead.tail ⟨⟨inner.decl, h.known_decl hinner, hasked inner hinner hguard⟩,
            i, s.graph.size, lookup_enter_of_lookup hfresh a i hi, ?_, ?_⟩
          · rw [Graph.lookup_insert hfresh]
            exact if_pos rfl
          · exact Nat.le_of_lt (h.indexed.lookup_lt hi)
        · rw [List.mem_singleton.1 ha]
          exact .refl
  | leave _ _ _ _ ih => exact ih hf ha

/-- As long as a name is under analysis, what comes into the graph comes under analysis with it. -/
theorem mem_guard_of_notBefore {known : RecordDecl → Prop} (h : Grown c known s frames)
    (ha : a ∈ s.guard.names) (hf : f ∈ frames) (hbefore : NotBefore s.graph a f.name) :
    a ∈ f.guard.names := by
  induction h generalizing f with
  | start => cases hf
  | @enter s frames r h _ hfresh _ ih =>
      rcases List.mem_append.1 hf with hf | hf
      · rcases List.mem_append.1 ha with ha | ha
        · exact ih ha hf
            (h.notBefore_of_enter hfresh (h.guard_subset_names ha) (h.mem_names hf) hbefore)
        · -- the record that has just come in is behind all others
          obtain ⟨i, j, hi, hj, hle⟩ := hbefore
          obtain ⟨j', hj'⟩ := h.indexed.mem_names_iff.1 (h.mem_names hf)
          rw [lookup_enter_of_lookup hfresh _ j' hj'] at hj
          obtain rfl := Option.some.inj hj
          rw [List.mem_singleton.1 ha, Graph.lookup_insert hfresh] at hi
          have hsize := Option.some.inj ((if_pos rfl).symm.trans hi)
          exact absurd (h.indexed.lookup_lt hj') (Nat.not_lt.2 (hsize ▸ hle))
      · rw [List.mem_singleton.1 hf]
        exact ha
  | @leave s frames f₀ id h hf₀ hguard _ ih =>
      exact ih ((h.mem_popped_iff (List.mem_of_getElem? hf₀) hguard).1 ha).1 hf hbefore

/-- A record that has left has brought along with its outer names whatever it refers to and was not
in the graph before them. -/
theorem exists_mem_guard_of_reference {known : RecordDecl → Prop} (h : Grown c known s frames)
    (hf : f ∈ frames) (hclosed : f.name ∉ s.guard.names) (ha : a ∈ f.guard.names)
    (hb : b ∈ f.references) (hbefore : NotBefore s.graph a b) :
    ∃ f' ∈ frames, f'.name = b ∧ a ∈ f'.guard.names := by
  induction h generalizing f with
  | start => cases hf
  | @enter s frames r h _ hfresh _ ih =>
      rw [CycleGuard.names_push, List.mem_append, List.mem_singleton, not_or] at hclosed
      rcases List.mem_append.1 hf with hf | hf
      · have hbefore := h.notBefore_of_enter hfresh (h.guard_subset_names_of_mem hf ha)
          ((h.settled hf hclosed.1).met b hb) hbefore
        obtain ⟨f', hf', hname, hmem⟩ := ih hf hclosed.1 ha hb hbefore
        exact ⟨f', List.mem_append_left _ hf', hname, hmem⟩
      · refine absurd ?_ hclosed.2
        rw [List.mem_singleton.1 hf]
        rfl
  | @leave s frames f₀ id h hf₀ hguard hmet ih =>
      by_cases hopen : f.name ∈ s.guard.names
      · obtain rfl := h.eq_of_notMem_popped (List.mem_of_getElem? hf₀) hguard hf hopen hclosed
        obtain ⟨f', hf', rfl⟩ := h.exists_mem_frame (hmet b hb)
        exact ⟨f', hf', rfl, h.mem_guard_of_notBefore (hguard ▸ ha) hf' hbefore⟩
      · exact ih hf hopen ha hb hbefore

/-- Between calls: the names that were under analysis with a record are those that lead to it. -/
theorem mem_guard_iff_leadsTo (h : Grown c (Declared c) s frames) (hguard : s.guard = .empty)
    (hf : f ∈ frames) (ha : a ∈ s.graph.names) :
    a ∈ f.guard.names ↔ LeadsTo c s.graph a f.name := by
  refine ⟨h.leadsTo_of_mem_guard hf, fun hlead => ?_⟩
  have hframe : ∃ f' ∈ frames, f'.name = f.name ∧ a ∈ f'.guard.names := by
    generalize f.name = b at hlead
    induction hlead with
    | refl =>
        obtain ⟨f', hf', rfl⟩ := h.exists_mem_frame ha
        exact ⟨f', hf', rfl, h.name_mem_guard hf'⟩
    | tail _ hstep ih =>
        obtain ⟨f', hf', rfl, hmem⟩ := ih
        obtain ⟨⟨r, hr, hb⟩, hbefore⟩ := hstep
        obtain rfl := Option.some.inj ((h.known_decl hf').symm.trans hr)
        exact h.exists_mem_guard_of_reference hf' (by rw [hguard]; exact List.not_mem_nil) hmem hb
          hbefore
  obtain ⟨f', hf', hname, hmem⟩ := hframe
  rwa [← h.frame_ext hf' hf hname]

end Grown

end RecordSchema.Reflection
