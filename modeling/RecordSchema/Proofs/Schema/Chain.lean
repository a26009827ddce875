import Mathlib.Data.List.Nodup
import RecordSchema.Proofs.Schema.Links

/-!
# Chains of fields

A chain goes down from a struct through fields that open structs, one after the other.  Where the
fields of a struct are told apart by their output names, so are the chains that start at a struct.
-/

namespace RecordSchema.Schema.Graph

variable {g : Graph} {s t u : StructId} {f f' : Field} {chain chain' : List Field}

/-- The fields of `chain` lead down from the struct at `s` to the one at `t`. -/
inductive Chain (g : Graph) : StructId → List Field → StructId → Prop
  | nil (s : StructId) : Chain g s [] s
  | cons {s t u : StructId} {f : Field} {chain : List Field} (mem : f ∈ g.fieldsAt s)
      (opens : f.nestedTarget? = some t) (rest : Chain g t chain u) : Chain g s (f :: chain) u

namespace Chain

theorem append (h : g.Chain s chain t) (h' : g.Chain t chain' u) :
    g.Chain s (chain ++ chain') u := by
  induction h with
  | nil => exact h'
  | cons mem opens _ ih => exact .cons mem opens (ih h')

theorem concat (h : g.Chain s chain t) (mem : f ∈ g.fieldsAt t)
    (opens : f.nestedTarget? = some u) : g.Chain s (chain ++ [f]) u :=
  h.append (.cons mem opens (.nil u))

theorem exists_struct (h : g.Chain s chain t) : ∀ f ∈ chain, ∃ r ∈ g.structs, f ∈ r.fields := by
  induction h with
  | nil => exact fun _ hf => by cases hf
  | cons mem _ _ ih =>
      obtain ⟨r, hr, hf⟩ := mem_fieldsAt_iff.1 mem
      exact List.forall_mem_cons.2 ⟨⟨r, List.mem_of_getElem? hr, hf⟩, ih⟩

end Chain

/-- A chain goes down in a link order. -/
theorem LinkOrder.idxOf_le_of_chain {order : List StructId} (h : g.LinkOrder order)
    (hchain : g.Chain s chain t) : order.idxOf t ≤ order.idxOf s := by
  induction hchain with
  | nil => exact Nat.le_refl _
  | cons mem opens _ ih =>
      exact Nat.le_trans ih (Nat.le_of_lt (h.idxOf_lt (linksTo_of_nestedTarget? mem opens)))

/-- A chain does not come back to its start. -/
theorem LinkOrder.nestedTarget?_ne_of_chain {order : List StructId} (h : g.LinkOrder order)
    (hchain : g.Chain s chain t) : ∀ f ∈ chain, f.nestedTarget? ≠ some s := by
  have hlt (u : StructId) : ∀ f ∈ chain, f.nestedTarget? = some u →
      order.idxOf u < order.idxOf s := by
    induction hchain with
    | nil => exact fun _ hf => by cases hf
    | cons mem opens _ ih =>
        have hstep := h.idxOf_lt (linksTo_of_nestedTarget? mem opens)
        refine List.forall_mem_cons.2 ⟨fun hu => ?_, fun f hf hu => ?_⟩
        · rwa [Option.some.inj (hu.symm.trans opens)]
        · exact Nat.lt_trans (ih f hf hu) hstep
  exact fun f hf hs => Nat.lt_irrefl _ (hlt s f hf hs)

theorem LinkOrder.lt_size_of_chain {order : List StructId} (h : g.LinkOrder order)
    (hchain : g.Chain s chain t) (hs : s < g.size) : t < g.size := by
  induction hchain with
  | nil => exact hs
  | cons mem opens _ ih => exact ih (h.target_lt_size (linksTo_of_nestedTarget? mem opens))

/-- The fields of a struct have different output names. -/
def DistinctNames (g : Graph) : Prop := ∀ s ∈ g.structs, (s.fields.map (·.outputName)).Nodup

theorem DistinctNames.field_ext (h : g.DistinctNames) (hf : f ∈ g.fieldsAt s)
    (hf' : f' ∈ g.fieldsAt s) (hname : f.outputName = f'.outputName) : f = f' := by
  obtain ⟨t, ht, hf⟩ := mem_fieldsAt_iff.1 hf
  obtain ⟨t', ht', hf'⟩ := mem_fieldsAt_iff.1 hf'
  obtain rfl := Option.some.inj (ht.symm.trans ht')
  exact List.inj_on_of_nodup_map (h t (List.mem_of_getElem? ht)) hf hf' hname

/-- A chain is told by the output names on the way. -/
theorem DistinctNames.chain_unique (h : g.DistinctNames) (hchain : g.Chain s chain t)
    (hchain' : g.Chain s chain' u)
    (hnames : chain.map (·.outputName) = chain'.map (·.outputName)) : chain = chain' ∧ t = u := by
  induction hchain generalizing chain' with
  | nil s =>
      cases hchain' with
      | nil => exact ⟨rfl, rfl⟩
      | cons => simp at hnames
  | cons mem opens _ ih =>
      cases hchain' with
      | nil => simp at hnames
      | cons mem' opens' rest' =>
          obtain ⟨hname, hrest⟩ := List.cons.inj hnames
          obtain rfl := h.field_ext mem mem' hname
          obtain rfl := Option.some.inj (opens.symm.trans opens')
          obtain ⟨rfl, rfl⟩ := ih rest' hrest
          exact ⟨rfl, rfl⟩

/-- A field at the end of a chain is told by the output names on the way to it. -/
theorem DistinctNames.chain_ext (h : g.DistinctNames) (hchain : g.Chain s chain t)
    (hf : f ∈ g.fieldsAt t) (hchain' : g.Chain s chain' u) (hf' : f' ∈ g.fieldsAt u)
    (hnames : (chain ++ [f]).map (·.outputName) = (chain' ++ [f']).map (·.outputName)) :
    chain = chain' ∧ f = f' := by
  rw [List.map_append, List.map_append] at hnames
  obtain ⟨habove, hlast⟩ := List.append_inj' hnames rfl
  obtain ⟨rfl, rfl⟩ := h.chain_unique hchain hchain' habove
  exact ⟨rfl, h.field_ext hf hf' (List.cons.inj hlast).1⟩

end RecordSchema.Schema.Graph
