import RecordSchema.Proofs.Reflection.Embedding
import RecordSchema.Proofs.Reflection.Room

/-!
# What a visit adds

A visit that succeeds adds structs only for records that the visited one reaches, and a visit that
fails has met a name that is reached and not declared.  Between calls the names of a graph are
declared, and what they mention is in the graph too.  So a request succeeds just when all that its
record reaches is declared, whatever was asked for before, and then this is what is in the graph
besides what was there.
-/

namespace RecordSchema.Reflection

open Schema (Graph StructId)

variable {c : Catalog} {v : String → Walk StructId} {s s' s'' : WalkState} {frames : List Frame}
  {a b name : String} {e : ReflectError}

/-! ## Reached records -/

/-- Every name that has been added is reached from `a`. -/
def AddsReached (c : Catalog) (a : String) (s s' : WalkState) : Prop :=
  ∀ m ∈ s'.graph.names, m ∈ s.graph.names ∨ c.Reaches a m

/-- At the bottom of the error is a name that `a` reaches and that is not declared. -/
def MeetsUnknown (c : Catalog) (a : String) (e : ReflectError) : Prop :=
  ∃ m, e.rootCause = .unknownRecord m ∧ c.Reaches a m ∧ c.contains m = false

theorem AddsReached.refl : AddsReached c a s s := fun _ hm => .inl hm

theorem AddsReached.trans (h : AddsReached c a s s') (h' : AddsReached c a s' s'') :
    AddsReached c a s s'' := by
  intro m hm
  rcases h' m hm with hm | hm
  · exact h m hm
  · exact .inr hm

theorem AddsReached.of_mentions (h : AddsReached c b s s') (hab : c.Mentions a b) :
    AddsReached c a s s' := by
  intro m hm
  rcases h m hm with hm | hm
  · exact .inl hm
  · exact .inr (Relation.ReflTransGen.head hab hm)

theorem MeetsUnknown.of_mentions (h : MeetsUnknown c b e) (hab : c.Mentions a b) :
    MeetsUnknown c a e := by
  obtain ⟨m, hcause, hm, hunknown⟩ := h
  exact ⟨m, hcause, Relation.ReflTransGen.head hab hm, hunknown⟩

/-- The context of a step leaves the bottom of an error as it is. -/
theorem rootCause_context (step : BodyStep) (owner : String) (e : ReflectError) :
    (step.context owner e).rootCause = e.rootCause := by
  have hwithin : ∀ (within : List String) (inner : ReflectError),
      (within.foldr (fun label e => .embedded owner label e) inner).rootCause =
        inner.rootCause := by
    intro within inner
    induction within with
    | nil => rfl
    | cons label rest ih => exact ih
  rw [BodyStep.context, hwithin]
  cases step.item <;> rfl

/-! ## Walks -/

/-- A walk for `a` adds what `a` reaches, or it meets a name there that is not declared. -/
abbrev WalksReached {α : Type} (c : Catalog) (a : String) (w : Walk α) (s : WalkState) : Prop :=
  w.Ensures s (fun _ => AddsReached c a s) fun e _ => MeetsUnknown c a e

theorem WalksReached.of_mentions {α : Type} {w : Walk α} (h : WalksReached c b w s)
    (hab : c.Mentions a b) : WalksReached c a w s :=
  h.mono (fun _ _ hadds => hadds.of_mentions hab) fun _ _ hmeets => hmeets.of_mentions hab

theorem WalksReached.refer (h : WalksReached c a (v name) s) :
    WalksReached c a (refer v name) s := by
  by_cases hon : name ∈ s.guard.names
  · exact (Walk.ensures_refer_of_mem hon).2 .refl
  · exact Walk.Ensures.refer h hon fun _ _ hadds => hadds

theorem WalksReached.walkStep {step : BodyStep}
    (h : ∀ name, step.reference? = some name → WalksReached c a (v name) s) :
    WalksReached c a (walkStep v step) s := by
  rw [BodyStep.reference?] at h
  rw [Reflection.walkStep]
  cases hitem : step.item with
  | field decl tag shape =>
      rw [hitem] at h
      refine (Walk.ensures_map _).2 ?_
      rw [analyze]
      cases hname : shape.reference? with
      | none => exact (Walk.ensures_pure _).2 .refl
      | some name => exact (Walk.ensures_map _).2 (h name hname).refer
  | embed record =>
      rw [hitem] at h
      exact (h record rfl).bind (fun _ _ hadds => hadds) fun _ _ hmeets => hmeets

theorem WalksReached.context {α : Type} {w : Walk α} (h : WalksReached c a w s) (step : BodyStep)
    (owner : String) :
    WalksReached c a (EStateM.adaptExcept (step.context owner) w : Walk α) s := by
  refine (Walk.ensures_adaptExcept _).2 (h.mono (fun _ _ hadds => hadds) ?_)
  rintro e _ ⟨m, hcause, hm, hunknown⟩
  exact ⟨m, (rootCause_context step owner e).trans hcause, hm, hunknown⟩

/-- Each step of a body starts where the steps before it have ended. -/
theorem walksReached_walkBody (hv : Steady v) (owner : String) {steps : List BodyStep}
    (hs : s.graph.Indexed)
    (h : ∀ step ∈ steps, ∀ name, step.reference? = some name →
      ∀ s', s.Continues s' → WalksReached c a (v name) s') :
    WalksReached c a (walkBody v owner steps) s := by
  induction steps generalizing s with
  | nil => exact (Walk.ensures_pure _).2 .refl
  | cons step rest ih =>
      obtain ⟨hstep, hrest⟩ := List.forall_mem_cons.1 h
      have hreached : WalksReached c a (walkStep v step) s :=
        WalksReached.walkStep fun name hname => hstep name hname s (.refl hs)
      refine ((hv.walkStep_context owner step hs).and (hreached.context step owner)).bind ?_ ?_
      · rintro _ s₁ ⟨hcontinues, hadds⟩
        refine (Walk.ensures_map _).2 ((ih hcontinues.indexed ?_).mono ?_ ?_)
        · intro step hstep name hname s' h'
          exact hrest step hstep name hname s' (hcontinues.trans h')
        · exact fun _ _ hadds' => hadds.trans hadds'
        · exact fun _ _ hmeets => hmeets
      · exact fun _ _ hfail => hfail.2

/-- A record adds itself and what its references reach. -/
theorem walksReached_walkRecord (hv : Steady v) (hs : s.graph.Indexed) {r : RecordDecl}
    (hr : Declared c r) (hnamed : r.isAnonymous = false) (hfresh : s.graph.lookup r.name = none)
    (h : ∀ name s', (⟨(s.graph.insert (placeholder c r)).2, s.guard.push r.name⟩ :
      WalkState).Continues s' → WalksReached c name (v name) s') :
    WalksReached c r.name (walkRecord c v r) s := by
  have hbody : WalksReached c r.name (walkBody v r.name (bodySteps r.fields))
      ⟨(s.graph.insert (placeholder c r)).2, s.guard.push r.name⟩ := by
    refine walksReached_walkBody hv r.name (hs.insert _) ?_
    intro step hstep name hname s' h'
    refine (h name s' h').of_mentions (refersTo_iff_mentions.1 ⟨r, hr, ?_⟩)
    exact mem_references.2 ⟨step, hstep, hname⟩
  refine (Walk.ensures_walkRecord_of_fresh hnamed hfresh).2 (hbody.mono ?_ ?_)
  · intro fields s' hadds m hm
    rw [names_modify_fields] at hm
    rcases hadds m hm with hm | hm
    · rw [Graph.names_insert hfresh] at hm
      rcases List.mem_append.1 hm with hm | hm
      · exact .inl hm
      · rw [List.mem_singleton.1 hm]
        exact .inr .refl
    · exact .inr hm
  · exact fun _ _ hmeets => hmeets

/-- A visit adds what the visited record reaches, or it meets a name there that is not declared. -/
theorem walksReached_visit (hempty : "" ∉ c.names) (name : String) (hs : s.graph.Indexed) :
    WalksReached c name (visit c c.size name) s := by
  induction hmissing : (missingNames c s.graph).length using Nat.strongRecOn
    generalizing name s with
  | ind k ih =>
      subst hmissing
      have hvisit := visit_size c name hs
      cases hl : s.graph.lookup name with
      | some id =>
          rw [hl] at hvisit
          exact (Walk.ensures_of_ok hvisit).2 .refl
      | none =>
          cases hr : c.find? name with
          | none =>
              rw [hl, hr] at hvisit
              refine (Walk.ensures_of_error hvisit).2 ⟨name, rfl, .refl, ?_⟩
              rw [Catalog.contains, hr, Option.isSome_none]
          | some r =>
              rw [hl, hr] at hvisit
              obtain ⟨hmem, rfl⟩ := Catalog.mem_of_find?_eq_some hr
              have hnamed : r.isAnonymous = false := Bool.eq_false_iff.2 fun hanonymous =>
                hempty (String.isEmpty_iff.1 hanonymous ▸ List.mem_map_of_mem hmem)
              rw [WalksReached, Walk.Ensures, hvisit]
              refine walksReached_walkRecord (steady_visit c c.size) hs hr hnamed hl ?_
              intro name s' hcontinues
              have hlt := length_missingNames_lt_of_continues hs hmem hl hcontinues
              exact ih _ hlt name hcontinues.indexed rfl

/-! ## Structs -/

namespace Grown

/-- The names of a graph are declared. -/
theorem contains_of_mem_names (h : Grown c (Declared c) s frames) (ha : a ∈ s.graph.names) :
    c.contains a = true := by
  obtain ⟨f, hf, rfl⟩ := h.exists_mem_frame ha
  exact Catalog.contains_of_find?_eq_some (h.known_decl hf)

/-- Between calls everything that a name of the graph reaches is in the graph. -/
theorem mem_names_of_reaches (h : Grown c (Declared c) s frames) (hguard : s.guard = .empty)
    (ha : a ∈ s.graph.names) (hab : c.Reaches a b) : b ∈ s.graph.names := by
  induction hab with
  | refl => exact ha
  | @tail m b _ hmention ih =>
      obtain ⟨f, hf, rfl⟩ := h.exists_mem_frame ih
      obtain ⟨r, hr, hreference⟩ := refersTo_iff_mentions.2 hmention
      obtain rfl := Option.some.inj ((h.known_decl hf).symm.trans hr)
      exact (h.settled_of_guard_eq_empty hguard hf).met b hreference

end Grown

/-! ## Calls -/

namespace Reflector

variable {r : Reflector} {n m : String} {id : StructId}

/-- A record that has a struct is not analysed again. -/
theorem reflect_of_lookup (h : r.graph.lookup m = some id) : r.reflect m = (.ok id, r) := by
  rw [reflect, run, Walk.visit_of_lookup h]

/-- A record keeps its place, whatever is asked for. -/
theorem lookup_after_append {calls : List Call} (h : (after c calls).graph.lookup m = some id)
    (later : List Call) : (after c (calls ++ later)).graph.lookup m = some id := by
  induction later using List.reverseRecOn with
  | nil => rwa [List.append_nil]
  | append_singleton later k ih =>
      rw [← List.append_assoc, after_concat]
      have hindexed := after_indexed c (calls ++ later)
      have hcontinues := call_continues hindexed k
      exact (hindexed.extends hcontinues.indexed hcontinues.structs).lookup m id ih

section Request

variable (hcatalog : r.catalog = c) (hempty : "" ∉ c.names) (hindexed : r.graph.Indexed)

include hcatalog hempty hindexed

/-- A request that succeeds adds only what its record reaches. -/
theorem addsReached_of_reflect (hok : (r.reflect n).1 = .ok id) :
    AddsReached c n r.toWalkState (r.reflect n).2.toWalkState := by
  subst hcatalog
  have hrun := (run_of_ensures (walksReached_visit hempty n hindexed)).2
  rw [reflect] at hok ⊢
  rwa [hok] at hrun

/-- A request succeeds if all that its record reaches is declared. -/
theorem exists_reflect_ok (hdeclared : ∀ m, c.Reaches n m → c.contains m = true) :
    ∃ id, (r.reflect n).1 = .ok id := by
  subst hcatalog
  have hrun := (run_of_ensures (walksReached_visit hempty n hindexed)).2
  rw [reflect]
  split at hrun
  · rename_i id hok
    exact ⟨id, hok⟩
  · obtain ⟨m, -, hm, hunknown⟩ := hrun
    rw [hdeclared m hm] at hunknown
    cases hunknown

end Request

/-- A request that succeeds gives the place of the struct. -/
theorem grows_of_reflect (h : Grown c (Declared c) r.toWalkState frames) (hcatalog : r.catalog = c)
    (hguard : r.guard = .empty) (hok : (r.reflect n).1 = .ok id) :
    ∃ frames', Grows c (Declared c) r.toWalkState frames (r.reflect n).2.toWalkState frames' ∧
      (r.reflect n).2.graph.lookup n = some id := by
  subst hcatalog
  have hgrowing := growing_visit (fun _ hr => declared_of_mem hr) r.catalog.size n r.toWalkState
    frames h (notAsked h hguard)
  have hrun := (run_of_ensures hgrowing).2
  rw [reflect] at hok ⊢
  rwa [hok] at hrun

/-- A request that succeeds has all that its record reaches in the graph. -/
theorem mem_names_of_reflect (h : Grown c (Declared c) r.toWalkState frames)
    (hcatalog : r.catalog = c) (hguard : r.guard = .empty) (hok : (r.reflect n).1 = .ok id)
    (hm : c.Reaches n m) : m ∈ (r.reflect n).2.graph.names ∧ c.contains m = true := by
  obtain ⟨frames', ⟨hgrown, -, hcontinues⟩, hid⟩ := grows_of_reflect h hcatalog hguard hok
  have hn := hgrown.indexed.mem_names_iff.2 ⟨id, hid⟩
  have hin := hgrown.mem_names_of_reaches (hcontinues.guard.trans hguard) hn hm
  exact ⟨hin, hgrown.contains_of_mem_names hin⟩

/-- After requests by name another one succeeds just when all that its record reaches is declared.
Then the names of the graph are those of before and those reached, each once, and from then on each
of them is found in one place without any change. -/
theorem after_reflect_reaches (c : Catalog) (hempty : "" ∉ c.names) (names : List String)
    (n : String) :
    let r := after c (names.map .reflect)
    ((∃ id, (r.reflect n).1 = .ok id) ↔ ∀ m, c.Reaches n m → c.contains m = true) ∧
      ∀ id, (r.reflect n).1 = .ok id →
        (∀ m, m ∈ (r.reflect n).2.graph.names ↔ m ∈ r.graph.names ∨ c.Reaches n m) ∧
        (r.reflect n).2.graph.names.Nodup ∧
        ∀ m ∈ (r.reflect n).2.graph.names, ∃ id', (m = n → id' = id) ∧ ∀ later,
          let r' := after c (names.map .reflect ++ .reflect n :: later)
          r'.reflect m = (.ok id', r') := by
  intro r
  obtain ⟨frames, h⟩ := after_reflect_grown c names
  have hcatalog := after_catalog c (names.map .reflect)
  have hguard := after_guard c (names.map .reflect)
  refine ⟨⟨?_, exists_reflect_ok hcatalog hempty h.indexed⟩, fun id hok => ⟨fun m => ?_, ?_, ?_⟩⟩
  · rintro ⟨id, hok⟩ m hm
    exact (mem_names_of_reflect h hcatalog hguard hok hm).2
  · constructor
    · exact addsReached_of_reflect hcatalog hempty h.indexed hok m
    · rintro (hm | hm)
      · exact Graph.names_subset_of_prefix (call_continues h.indexed (.reflect n)).structs hm
      · exact (mem_names_of_reflect h hcatalog hguard hok hm).1
  · exact (call_continues h.indexed (.reflect n)).indexed.nodup_names
  · intro m hm
    obtain ⟨frames', ⟨hgrown, -, -⟩, hid⟩ := grows_of_reflect h hcatalog hguard hok
    obtain ⟨id', hid'⟩ := hgrown.indexed.mem_names_iff.1 hm
    refine ⟨id', ?_, fun later => reflect_of_lookup ?_⟩
    · rintro rfl
      exact Option.some.inj (hid'.symm.trans hid)
    · have hafter : after c (names.map .reflect ++ [.reflect n]) = (r.reflect n).2 :=
        after_concat c _ _
      have hkept := lookup_after_append (hafter ▸ hid') later
      rwa [List.append_assoc, List.singleton_append] at hkept

/-- Networks and what they forward to, for which one declaration is missing. -/
def networkCatalog : Catalog :=
  .ofRecords "network"
    [{ name := "Network"
       fields :=
        [{ name := "Bridge", ty := .optional (.named "Bridge")
           tag := some { name := "bridge", node := .element } },
         { name := "Addresses", ty := .list (.named "Address")
           tag := some { name := "ip", node := .element } }] },
     { name := "Bridge"
       fields :=
        [{ name := "Name", ty := .scalar .string
           tag := some { name := "name", node := .attr } }] },
     { name := "Address"
       fields :=
        [{ name := "Network", ty := .optional (.named "Network")
           tag := some { name := "network", node := .element } }] },
     { name := "Forward"
       fields :=
        [{ name := "Bridge", ty := .named "Bridge"
           tag := some { name := "bridge", node := .element } },
         { name := "Nat", ty := .named "Nat"
           tag := some { name := "nat", node := .element } }] }]

/-- A request that has failed does not stand in the way of one whose record reaches declared names
only. -/
theorem after_reflect_reaches_network :
    "" ∉ networkCatalog.names ∧
      ((after networkCatalog (["Bridge", "Forward"].map .reflect)).reflect "Forward").1 =
        .error (.field "Forward" "Nat" (.unknownRecord "Nat")) ∧
      (∀ m, networkCatalog.Reaches "Network" m → networkCatalog.contains m = true) ∧
      ∀ m, m ∈ ["Bridge", "Network", "Address"] ↔
        m ∈ ["Bridge"] ∨ networkCatalog.Reaches "Network" m := by
  have hempty : "" ∉ networkCatalog.names := by decide
  obtain ⟨hiff, hresult⟩ :=
    after_reflect_reaches networkCatalog hempty ["Bridge", "Forward"] "Network"
  have hok : ((after networkCatalog (["Bridge", "Forward"].map .reflect)).reflect "Network").1 =
      .ok 1 := by decide +kernel
  have hbefore : (after networkCatalog (["Bridge", "Forward"].map .reflect)).graph.names =
      ["Bridge"] := by decide +kernel
  have hnames : ((after networkCatalog (["Bridge", "Forward"].map .reflect)).reflect
      "Network").2.graph.names = ["Bridge", "Network", "Address"] := by decide +kernel
  refine ⟨hempty, by decide +kernel, hiff.1 ⟨1, hok⟩, fun m => ?_⟩
  have hmem := (hresult 1 hok).1 m
  rwa [hnames, hbefore] at hmem

end Reflector

end RecordSchema.Reflection
