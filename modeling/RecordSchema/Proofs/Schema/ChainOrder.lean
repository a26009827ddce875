import RecordSchema.Proofs.Schema.Chain

/-!
# Chains in order

The chains that go down from a struct, in the order in which a traversal follows them: a chain comes
before those that go on from where it ends, and chains that part ways come in the order of the
fields at which they do.
-/

namespace RecordSchema.Schema.Graph

variable {g : Graph} {s t : StructId} {f : Field} {chain chain' : List Field} {depth : Nat}

/-- A traversal from `s` on follows the first chain before the second one. -/
inductive Precedes (g : Graph) : StructId → List Field → List Field → Prop
  | shorter {s : StructId} {f : Field} {chain : List Field} : Precedes g s [] (f :: chain)
  | earlier {s : StructId} {f f' : Field} {chain chain' : List Field}
      (h : [f, f'].Sublist (g.fieldsAt s)) : Precedes g s (f :: chain) (f' :: chain')
  | within {s t : StructId} {f : Field} {chain chain' : List Field}
      (opens : f.nestedTarget? = some t) (h : Precedes g t chain chain') :
      Precedes g s (f :: chain) (f :: chain')

/-- The chains from `root` with the structs they lead to, in the order of a traversal. -/
structure Traversed (g : Graph) (root : StructId) (chains : List (List Field × StructId)) :
    Prop where
  mem_iff : ∀ chain t, (chain, t) ∈ chains ↔ g.Chain root chain t
  ordered : chains.Pairwise fun x y => g.Precedes root x.1 y.1

/-- The chains that begin with a field, given those from the struct it opens. -/
def chainsThrough (below : StructId → List (List Field × StructId)) (f : Field) :
    List (List Field × StructId) :=
  f.nestedTarget?.elim [] fun t => (below t).map fun x => (f :: x.1, x.2)

/-- The chains from `s` of fewer than `depth` fields. -/
def chainsBelow (g : Graph) : Nat → StructId → List (List Field × StructId)
  | 0, _ => []
  | depth + 1, s => ([], s) :: (g.fieldsAt s).flatMap (chainsThrough (g.chainsBelow depth))

/-- The chains from `s`, if there are no cycles. -/
def chainsFrom (g : Graph) (s : StructId) : List (List Field × StructId) :=
  g.chainsBelow (g.size + 1) s

theorem chainsThrough_of_opens (below : StructId → List (List Field × StructId))
    (h : f.nestedTarget? = some t) :
    chainsThrough below f = (below t).map fun x => (f :: x.1, x.2) := by
  rw [chainsThrough, h]
  rfl

theorem chainsThrough_of_none (below : StructId → List (List Field × StructId))
    (h : f.nestedTarget? = none) : chainsThrough below f = [] := by
  rw [chainsThrough, h]
  rfl

theorem mem_chainsThrough_iff {below : StructId → List (List Field × StructId)}
    {x : List Field × StructId} : x ∈ chainsThrough below f ↔
      ∃ t, f.nestedTarget? = some t ∧ ∃ y ∈ below t, (f :: y.1, y.2) = x := by
  cases h : f.nestedTarget? with
  | none => simp [chainsThrough_of_none below h]
  | some t => simp [chainsThrough_of_opens below h]

namespace LinkOrder

variable {order : List StructId}

theorem mem_chainsBelow_iff (h : g.LinkOrder order) (hdepth : order.idxOf s < depth) :
    (chain, t) ∈ g.chainsBelow depth s ↔ g.Chain s chain t := by
  induction depth generalizing s chain with
  | zero => exact absurd hdepth (Nat.not_lt_zero _)
  | succ depth ih =>
      have hlt {f : Field} {u : StructId} (hf : f ∈ g.fieldsAt s) (hu : f.nestedTarget? = some u) :
          order.idxOf u < depth :=
        Nat.lt_of_lt_of_le (h.idxOf_lt (linksTo_of_nestedTarget? hf hu)) (Nat.le_of_lt_succ hdepth)
      rw [chainsBelow, List.mem_cons, List.mem_flatMap]
      constructor
      · rintro (heq | ⟨f, hf, hthrough⟩)
        · cases heq
          exact .nil _
        · obtain ⟨u, hu, ⟨rest, _⟩, hmem, heq⟩ := mem_chainsThrough_iff.1 hthrough
          cases heq
          exact .cons hf hu ((ih (hlt hf hu)).1 hmem)
      · rintro (_ | ⟨hf, hu, hrest⟩)
        · exact .inl rfl
        · refine .inr ⟨_, hf, mem_chainsThrough_iff.2 ⟨_, hu, ?_⟩⟩
          exact ⟨_, (ih (hlt hf hu)).2 hrest, rfl⟩

end LinkOrder

theorem pairwise_precedes_chainsBelow (g : Graph) (depth : Nat) (s : StructId) :
    (g.chainsBelow depth s).Pairwise fun x y => g.Precedes s x.1 y.1 := by
  induction depth generalizing s with
  | zero => exact .nil
  | succ depth ih =>
      rw [chainsBelow, List.pairwise_cons, List.pairwise_flatMap]
      refine ⟨fun x hx => ?_, fun f _ => ?_, ?_⟩
      · obtain ⟨f, -, hx⟩ := List.mem_flatMap.1 hx
        obtain ⟨t, -, y, -, rfl⟩ := mem_chainsThrough_iff.1 hx
        exact .shorter
      · cases hopens : f.nestedTarget? with
        | none =>
            rw [chainsThrough_of_none _ hopens]
            exact .nil
        | some t =>
            rw [chainsThrough_of_opens _ hopens, List.pairwise_map]
            exact (ih t).imp fun h => .within hopens h
      · -- chains through different fields come in the order of the fields
        refine List.pairwise_iff_forall_sublist.2 fun {f f'} hsublist x hx y hy => ?_
        obtain ⟨t, -, x, -, rfl⟩ := mem_chainsThrough_iff.1 hx
        obtain ⟨t', -, y, -, rfl⟩ := mem_chainsThrough_iff.1 hy
        exact .earlier hsublist

/-- Where links run in no circle, the chains from a struct are listed. -/
theorem LinkOrder.traversed_chainsFrom {order : List StructId} (h : g.LinkOrder order)
    (s : StructId) : g.Traversed s (g.chainsFrom s) where
  mem_iff _ _ := h.mem_chainsBelow_iff
    (Nat.lt_succ_of_le (Nat.le_trans List.idxOf_le_length h.length_le_size))
  ordered := pairwise_precedes_chainsBelow g _ s

/-- Chains that follow each other part ways by name. -/
theorem DistinctNames.outputNames_ne_of_precedes (h : g.DistinctNames)
    (hprecedes : g.Precedes s chain chain') :
    chain.map (·.outputName) ≠ chain'.map (·.outputName) := by
  induction hprecedes with
  | shorter => simp
  | @earlier s f f' chain chain' hsublist =>
      intro heq
      obtain ⟨r, hr, -⟩ := mem_fieldsAt_iff.1 (hsublist.subset (List.mem_cons_self ..))
      rw [fieldsAt_of_get? hr] at hsublist
      have hnodup := (h r (List.mem_of_getElem? hr)).sublist (hsublist.map (·.outputName))
      simp only [List.map_cons, List.cons.injEq] at heq
      simp [heq.1] at hnodup
  | within _ _ ih => simpa using ih

end RecordSchema.Schema.Graph
