import RecordSchema.Proofs.Generation.Position
import RecordSchema.Proofs.Schema.Annotation
import RecordSchema.Proofs.Schema.Traversal

/-!
# Where fields are placed

Paths are recorded root after root, and a field keeps the first paths it gets.  What is visited from
a root does not depend on paths, so the visits of all roots can be listed beforehand; a struct is
placed by the first of them, with all of its fields.
-/

namespace RecordSchema.Generation

open Schema (Field Graph Struct StructId)

variable {g g' : Graph} {roots : List PathRoot} {root : PathRoot} {p q : Position} {f : Field}
  {id : StructId} {visits : List (StructId × Position)} {a b : StructId × Position}

/-! ## Fields -/

/-- A field that has been placed stays where it is. -/
theorem placeField_placeField (p q : Position) (f : Field) :
    placeField q (placeField p f) = placeField p f := by
  by_cases h : f.path.isEmpty = true
  · have hplaced : (placeField p f).path.isEmpty = false := by
      rw [placeField, if_pos h]
      exact Bool.eq_false_iff.2 fun hempty =>
        Position.path_below_ne_empty p f (String.isEmpty_iff.1 hempty)
    rw [placeField, if_neg (by simp [hplaced])]
  · have hkept : placeField p f = f := by rw [placeField, if_neg h]
    rw [hkept, placeField, if_neg h]

theorem fieldsAt_placeStruct (g : Graph) (a : StructId × Position) (id : StructId) :
    (placeStruct g a).fieldsAt id =
      if a.1 = id then (g.fieldsAt id).map (placeField a.2) else g.fieldsAt id := by
  rw [placeStruct, Graph.fieldsAt, Graph.get?_modify, Graph.fieldsAt]
  cases g.get? id with
  | none => simp
  | some s =>
      rw [Option.map_some]
      split <;> rfl

/-- The first visit of a struct places its fields. -/
theorem fieldsAt_foldl_placeStruct (g : Graph) (visits : List (StructId × Position))
    (id : StructId) :
    (visits.foldl placeStruct g).fieldsAt id =
      (g.fieldsAt id).map fun f => (visits.find? (·.1 == id)).elim f (placeField ·.2 f) := by
  induction visits generalizing g with
  | nil => simp
  | cons a rest ih =>
      rw [List.foldl_cons, ih, fieldsAt_placeStruct, List.find?_cons]
      by_cases h : a.1 = id
      · rw [if_pos h, List.map_map, beq_iff_eq.2 h]
        refine List.map_congr_left fun f _ => ?_
        cases rest.find? (·.1 == id) with
        | none => rfl
        | some b => exact placeField_placeField ..
      · rw [if_neg h, beq_eq_false_iff_ne.2 h]

theorem core_placeField (p : Position) (f : Field) : (placeField p f).core = f.core := by
  rw [placeField]
  split <;> rfl

theorem sameUpTo_placeStruct (g : Graph) (visit : StructId × Position) :
    g.SameUpTo .core (placeStruct g visit) := by
  refine .modify (fun s => ?_) g _
  rw [Struct.erased, Struct.erased, List.map_map]
  have hfields : Field.core ∘ placeField visit.2 = Field.core := funext (core_placeField visit.2)
  rw [hfields]

/-! ## Visits -/

theorem successors_nestedPositions (g : Graph) (a : StructId × Position) :
    g.successors nestedPositions a =
      (g.fieldsAt a.1).filterMap fun f => f.nestedTarget?.map (·, a.2.below f) := by
  rw [Graph.successors, Graph.fieldsAt]
  cases g.get? a.1 <;> rfl

theorem mem_successors_iff : b ∈ g.successors nestedPositions a ↔
    ∃ f ∈ g.fieldsAt a.1, f.nestedTarget? = some b.1 ∧ b.2 = a.2.below f := by
  rw [successors_nestedPositions, List.mem_filterMap]
  refine exists_congr fun f => and_congr_right fun _ => ?_
  rw [Option.map_eq_some_iff]
  constructor
  · rintro ⟨t, ht, rfl⟩
    exact ⟨ht, rfl⟩
  · rintro ⟨ht, hb⟩
    exact ⟨b.1, ht, Prod.ext rfl hb.symm⟩

/-- Annotations do not change what is visited. -/
theorem successors_eq_of_sameUpTo (h : g.SameUpTo .core g') (a : StructId × Position) :
    g'.successors nestedPositions a = g.successors nestedPositions a := by
  rw [successors_nestedPositions, successors_nestedPositions]
  exact h.filterMap_fieldsAt _ (fun _ => rfl) a.1

/-- The roots that are not entered from `root`. -/
def otherRoots (roots : List PathRoot) (root : PathRoot) : List StructId :=
  (roots.map (·.id)).filter (· != root.id)

/-- The visits from one of several roots. -/
def rootVisits (g : Graph) (roots : List PathRoot) (root : PathRoot) :
    List (StructId × Position) :=
  g.firstVisits nestedPositions (otherRoots roots root) [(root.id, root.position)]

theorem rootVisits_eq_of_sameUpTo (h : g.SameUpTo .core g') (roots : List PathRoot)
    (root : PathRoot) : rootVisits g' roots root = rootVisits g roots root :=
  Graph.firstVisits_congr (successors_eq_of_sameUpTo h) _ _

/-- The visits from all roots, one root after the other. -/
def allVisits (g : Graph) (roots : List PathRoot) : List (StructId × Position) :=
  roots.flatMap (rootVisits g roots)

theorem allVisits_eq_of_sameUpTo (h : g.SameUpTo .core g') (roots : List PathRoot) :
    allVisits g' roots = allVisits g roots :=
  congrArg roots.flatMap (funext (rootVisits_eq_of_sameUpTo h roots))

theorem assignRootPaths_eq (g : Graph) (roots : List PathRoot) :
    assignRootPaths g roots = (allVisits g roots).foldl placeStruct g := by
  have hfold (some : List PathRoot) (g' : Graph) (h : g.SameUpTo .core g') :
      some.foldl (fun g root => placeFrom (otherRoots roots root) g root) g' =
        (some.flatMap (rootVisits g roots)).foldl placeStruct g' := by
    induction some generalizing g' with
    | nil => rfl
    | cons root rest ih =>
        have hvisits := rootVisits_eq_of_sameUpTo h roots root
        rw [rootVisits] at hvisits
        rw [List.foldl_cons, List.flatMap_cons, List.foldl_append, placeFrom, hvisits]
        exact ih _ (h.trans (.foldl sameUpTo_placeStruct _ _))
  exact hfold roots g (.refl g)

/-! ## What is visited -/

/-- A visit from a root is at the end of a chain that passes through no other root. -/
theorem exists_chain_of_mem_rootVisits (h : a ∈ rootVisits g roots root) :
    ∃ fields, g.Chain root.id fields a.1 ∧ a.2 = root.position.along fields ∧
      ∀ f ∈ fields, ∀ t ∈ otherRoots roots root, f.nestedTarget? ≠ some t := by
  obtain ⟨start, hstart, -, hleads⟩ := Graph.exists_leadsTo h
  rw [List.mem_singleton.1 hstart] at hleads
  clear h
  induction hleads with
  | refl => exact ⟨[], .nil _, rfl, fun _ hf => by cases hf⟩
  | tail _ hstep ih =>
      obtain ⟨fields, hchain, hposition, hclosed⟩ := ih
      obtain ⟨hmem, hopen⟩ := hstep
      obtain ⟨f, hf, htarget, hbelow⟩ := mem_successors_iff.1 hmem
      refine ⟨fields ++ [f], hchain.concat hf htarget, ?_, List.forall_mem_append.2
        ⟨hclosed, fun e he t ht heq => hopen ?_⟩⟩
      · rw [Position.along_concat, ← hposition, hbelow]
      · rw [List.mem_singleton.1 he, htarget] at heq
        rwa [Option.some.inj heq]

theorem mem_otherRoots_iff : id ∈ otherRoots roots root ↔ id ∈ roots.map (·.id) ∧ id ≠ root.id := by
  rw [otherRoots, List.mem_filter, bne_iff_ne]

theorem root_mem_rootVisits (g : Graph) (roots : List PathRoot) (root : PathRoot) :
    root.id ∈ (rootVisits g roots root).map Prod.fst :=
  (Graph.mem_seen_or_visited_of_mem (List.mem_singleton_self _)).resolve_left fun hmem =>
    (mem_otherRoots_iff.1 hmem).2 rfl

/-- What a chain leads to is visited from some root if its start is. -/
theorem exists_mem_rootVisits {s t : StructId} {fields : List Field} (hchain : g.Chain s fields t)
    (hs : ∃ r ∈ roots, s ∈ (rootVisits g roots r).map Prod.fst) :
    ∃ r ∈ roots, t ∈ (rootVisits g roots r).map Prod.fst := by
  induction hchain with
  | nil => exact hs
  | @cons s t u f fields mem opens _ ih =>
      refine ih ?_
      obtain ⟨r, hr, hmem⟩ := hs
      obtain ⟨⟨id, p⟩, hvisit, rfl⟩ := List.mem_map.1 hmem
      have hstep : (t, p.below f) ∈ g.successors nestedPositions (id, p) :=
        mem_successors_iff.2 ⟨f, mem, opens, rfl⟩
      rcases Graph.mem_seen_or_visited_of_successor hvisit hstep with hclosed | hvisited
      · -- a root that is not entered from here is visited from itself
        obtain ⟨r', hr', heq⟩ := List.mem_map.1 (mem_otherRoots_iff.1 hclosed).1
        replace heq : r'.id = t := heq
        exact ⟨r', hr', heq ▸ root_mem_rootVisits g roots r'⟩
      · exact ⟨r, hr, hvisited⟩

/-- A root is visited first from itself, and from no other one. -/
theorem find?_rootVisits (g : Graph) (root : PathRoot) (hid : id ∈ roots.map (·.id)) :
    (rootVisits g roots root).find? (·.1 == id) =
      if root.id = id then some (root.id, root.position) else none := by
  split
  · rename_i h
    have hopen : root.id ∉ otherRoots roots root := fun hmem => (mem_otherRoots_iff.1 hmem).2 rfl
    rw [rootVisits, Graph.firstVisits_of_fresh hopen, List.find?_cons, beq_iff_eq.2 h]
  · rename_i h
    refine List.find?_eq_none.2 fun a ha heq => ?_
    exact Graph.notMem_seen_of_mem ha
      (mem_otherRoots_iff.2 ⟨eq_of_beq heq ▸ hid, fun heq' => h (heq'.symm.trans (eq_of_beq heq))⟩)

/-- The first visit of a root is that from the first of the roots at its struct. -/
theorem find?_allVisits_of_root (g : Graph) (hid : id ∈ roots.map (·.id)) :
    (allVisits g roots).find? (·.1 == id) =
      (roots.find? (·.id == id)).map fun r => (r.id, r.position) := by
  have hfind (some : List PathRoot) : (some.flatMap (rootVisits g roots)).find? (·.1 == id) =
      (some.find? (·.id == id)).map fun r => (r.id, r.position) := by
    induction some with
    | nil => rfl
    | cons root rest ih =>
        rw [List.flatMap_cons, List.find?_append, find?_rootVisits g root hid, ih, List.find?_cons]
        by_cases h : root.id = id
        · rw [if_pos h, beq_iff_eq.2 h]
          rfl
        · rw [if_neg h, beq_eq_false_iff_ne.2 h]
          rfl
  exact hfind roots

/-! ## First visits -/

/-- The struct at `id` is visited first at the end of a chain of a root. -/
structure FirstAlong (g : Graph) (roots : List PathRoot) (id : StructId) (root : PathRoot)
    (fields : List Field) : Prop where
  mem : root ∈ roots
  chain : g.Chain root.id fields id
  /-- The chain passes through no root. -/
  apart : ∀ f ∈ fields, ∀ r ∈ roots, f.nestedTarget? ≠ some r.id
  first : ∃ visit, (allVisits g roots).find? (·.1 == id) = some visit ∧
    visit.2 = root.position.along fields
  /-- A root is visited first from the first of the roots at its struct. -/
  own : id ∈ roots.map (·.id) → fields = [] ∧ roots.find? (·.id == id) = some root

/-- All that the roots lead to is visited. -/
theorem exists_firstAlong {order : List StructId} (horder : g.LinkOrder order)
    (hreached : ∃ r ∈ roots, ∃ fields, g.Chain r.id fields id) :
    ∃ root fields, FirstAlong g roots id root fields := by
  by_cases hid : id ∈ roots.map (·.id)
  · obtain ⟨root, hroot⟩ : ∃ root, roots.find? (·.id == id) = some root := by
      obtain ⟨r, hr, heq⟩ := List.mem_map.1 hid
      exact Option.isSome_iff_exists.1 (List.find?_isSome.2 ⟨r, hr, beq_iff_eq.2 heq⟩)
    have hself : root.id = id := by simpa using List.find?_some hroot
    refine ⟨root, [], List.mem_of_find?_eq_some hroot, hself ▸ .nil _, fun _ hf => (by cases hf),
      ⟨(root.id, root.position), ?_, rfl⟩, fun _ => ⟨rfl, hroot⟩⟩
    rw [find?_allVisits_of_root g hid, hroot, Option.map_some]
  · obtain ⟨r, hr, _, hchain⟩ := hreached
    obtain ⟨r', hr', hvisited⟩ := exists_mem_rootVisits hchain ⟨r, hr, root_mem_rootVisits ..⟩
    obtain ⟨visit, hvisit, hend⟩ := List.mem_map.1 hvisited
    obtain ⟨first, hfirst⟩ : ∃ first, (allVisits g roots).find? (·.1 == id) = some first :=
      Option.isSome_iff_exists.1 (List.find?_isSome.2
        ⟨visit, List.mem_flatMap.2 ⟨r', hr', hvisit⟩, beq_iff_eq.2 hend⟩)
    have hself : first.1 = id := by simpa using List.find?_some hfirst
    obtain ⟨root, hroot, hmem⟩ := List.mem_flatMap.1 (List.mem_of_find?_eq_some hfirst)
    obtain ⟨fields, hchain, hposition, hclosed⟩ := exists_chain_of_mem_rootVisits hmem
    rw [hself] at hchain
    refine ⟨root, fields, hroot, hchain, fun f hf r hr => ?_, ⟨first, hfirst, hposition⟩,
      fun h => absurd h hid⟩
    by_cases hsame : r.id = root.id
    · rw [hsame]
      exact horder.nestedTarget?_ne_of_chain hchain f hf
    · exact hclosed f hf r.id (mem_otherRoots_iff.2 ⟨List.mem_map_of_mem hr, hsame⟩)

/-- The fields of a struct are placed together, where the struct is visited first. -/
theorem FirstAlong.fieldsAt_assignRootPaths {fields : List Field}
    (h : FirstAlong g' roots id root fields) (hsame : g.SameUpTo .core g') :
    (assignRootPaths g roots).fieldsAt id =
      (g.fieldsAt id).map (placeField (root.position.along fields)) := by
  obtain ⟨visit, hvisit, hposition⟩ := h.first
  rw [allVisits_eq_of_sameUpTo hsame] at hvisit
  rw [assignRootPaths_eq, fieldsAt_foldl_placeStruct, hvisit, ← hposition]
  rfl

end RecordSchema.Generation
