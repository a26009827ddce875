import Mathlib.Logic.Relation
import RecordSchema.Proofs.Schema.Chain
import RecordSchema.Proofs.Schema.Links
import RecordSchema.Schema.Traversal

/-!
# First visits

What a traversal visits, and in which order.  A traversal visits no struct twice and none that was
seen before; it visits just what steps lead to from its start without entering what was seen.  In a
graph without cycles it can be told without a list of what was seen: the structs are unfolded depth
first, as often as they are met, and of each the first copy counts.
-/

namespace RecordSchema.Schema.Graph

variable {α : Type} {g g' : Graph} {next : Struct → α → List (StructId × α)} {seen : List StructId}
  {todo rest : List (StructId × α)} {a b : StructId × α}

/-- What a visit leads to. -/
def successors (g : Graph) (next : Struct → α → List (StructId × α)) (a : StructId × α) :
    List (StructId × α) :=
  (g.get? a.1).elim [] (next · a.2)

/-! ## Equations -/

@[simp] theorem firstVisits_nil (g : Graph) (next : Struct → α → List (StructId × α))
    (seen : List StructId) : g.firstVisits next seen [] = [] := by
  rw [firstVisits]

theorem firstVisits_of_seen (h : a.1 ∈ seen) :
    g.firstVisits next seen (a :: rest) = g.firstVisits next seen rest := by
  rw [firstVisits, dif_pos h]

theorem firstVisits_of_fresh (h : a.1 ∉ seen) :
    g.firstVisits next seen (a :: rest) =
      a :: g.firstVisits next (a.1 :: seen) (g.successors next a ++ rest) := by
  rw [firstVisits, dif_neg h, successors]
  split
  · rename_i hs
    rw [hs]
    rfl
  · rename_i s hs
    rw [hs]
    rfl

/-- A traversal passes over a struct that was seen, or visits it and goes on with what it leads
to. -/
@[elab_as_elim]
theorem visits_induction (g : Graph) (next : Struct → α → List (StructId × α))
    {motive : List StructId → List (StructId × α) → Prop} (nil : ∀ seen, motive seen [])
    (seen : ∀ seen a rest, a.1 ∈ seen → motive seen rest → motive seen (a :: rest))
    (fresh : ∀ seen a rest, a.1 ∉ seen → motive (a.1 :: seen) (g.successors next a ++ rest) →
      motive seen (a :: rest)) (before : List StructId) (todo : List (StructId × α)) :
    motive before todo := by
  induction before, todo using firstVisits.induct g next with
  | case1 before => exact nil before
  | case2 before id label rest hid ih => exact seen before (id, label) rest hid ih
  | case3 before id label rest hid hs ih =>
      refine fresh before (id, label) rest hid ?_
      rwa [successors, hs, Option.elim_none, List.nil_append]
  | case4 before id label rest hid s hs ih =>
      refine fresh before (id, label) rest hid ?_
      rwa [successors, hs, Option.elim_some]

/-- A traversal depends on what visits lead to, not on the graph. -/
theorem firstVisits_congr (h : ∀ a, g'.successors next a = g.successors next a)
    (seen : List StructId) (todo : List (StructId × α)) :
    g'.firstVisits next seen todo = g.firstVisits next seen todo := by
  induction seen, todo using visits_induction g next with
  | nil seen => rw [firstVisits_nil, firstVisits_nil]
  | seen seen a rest hseen ih => rw [firstVisits_of_seen hseen, firstVisits_of_seen hseen, ih]
  | fresh seen a rest hfresh ih =>
      rw [firstVisits_of_fresh hfresh, firstVisits_of_fresh hfresh, h, ih]

/-- What is done first counts as seen for what is done later. -/
theorem firstVisits_append (seen : List StructId) (todo later : List (StructId × α)) :
    g.firstVisits next seen (todo ++ later) =
      g.firstVisits next seen todo ++
        g.firstVisits next (((g.firstVisits next seen todo).map Prod.fst).reverse ++ seen)
          later := by
  induction seen, todo using visits_induction g next with
  | nil seen => simp
  | seen seen a rest hseen ih =>
      rw [List.cons_append, firstVisits_of_seen hseen, firstVisits_of_seen hseen, ih]
  | fresh seen a rest hfresh ih =>
      rw [List.cons_append, firstVisits_of_fresh hfresh, firstVisits_of_fresh hfresh,
        ← List.append_assoc, ih]
      simp

/-! ## What is visited -/

/-- Nothing is visited that was seen before. -/
theorem notMem_seen_of_mem (h : a ∈ g.firstVisits next seen todo) : a.1 ∉ seen := by
  induction seen, todo using visits_induction g next with
  | nil seen => simp at h
  | seen seen b rest hseen ih => exact ih (firstVisits_of_seen hseen ▸ h)
  | fresh seen b rest hfresh ih =>
      rw [firstVisits_of_fresh hfresh] at h
      rcases List.mem_cons.1 h with rfl | h
      · exact hfresh
      · exact fun hmem => ih h (List.mem_cons_of_mem _ hmem)

theorem nodup_firstVisits (g : Graph) (next : Struct → α → List (StructId × α))
    (seen : List StructId) (todo : List (StructId × α)) :
    ((g.firstVisits next seen todo).map Prod.fst).Nodup := by
  induction seen, todo using visits_induction g next with
  | nil seen => simp
  | seen seen a rest hseen ih => rwa [firstVisits_of_seen hseen]
  | fresh seen a rest hfresh ih =>
      rw [firstVisits_of_fresh hfresh, List.map_cons, List.nodup_cons]
      refine ⟨fun hmem => ?_, ih⟩
      obtain ⟨b, hb, heq⟩ := List.mem_map.1 hmem
      exact notMem_seen_of_mem hb (heq ▸ List.mem_cons_self ..)

/-- Steps from `a` lead to `b` without entering `closed`. -/
def LeadsTo (g : Graph) (next : Struct → α → List (StructId × α)) (closed : List StructId) :
    StructId × α → StructId × α → Prop :=
  Relation.ReflTransGen fun a b => b ∈ g.successors next a ∧ b.1 ∉ closed

theorem LeadsTo.mono {closed closed' : List StructId} (h : g.LeadsTo next closed a b)
    (hsubset : closed' ⊆ closed) : g.LeadsTo next closed' a b := by
  induction h with
  | refl => exact .refl
  | tail _ hstep ih => exact ih.tail ⟨hstep.1, fun hmem => hstep.2 (hsubset hmem)⟩

/-- Steps lead to all that is visited. -/
theorem exists_leadsTo (h : b ∈ g.firstVisits next seen todo) :
    ∃ a ∈ todo, a.1 ∉ seen ∧ g.LeadsTo next seen a b := by
  induction seen, todo using visits_induction g next with
  | nil seen => simp at h
  | seen seen a rest hseen ih =>
      obtain ⟨d, hd, hleads⟩ := ih (firstVisits_of_seen hseen ▸ h)
      exact ⟨d, List.mem_cons_of_mem _ hd, hleads⟩
  | fresh seen a rest hfresh ih =>
      rw [firstVisits_of_fresh hfresh] at h
      rcases List.mem_cons.1 h with rfl | h
      · exact ⟨b, List.mem_cons_self .., hfresh, .refl⟩
      obtain ⟨d, hd, hopen, hleads⟩ := ih h
      have hsubset : seen ⊆ a.1 :: seen := List.subset_cons_self ..
      replace hleads := hleads.mono hsubset
      replace hopen : d.1 ∉ seen := fun hmem => hopen (hsubset hmem)
      rcases List.mem_append.1 hd with hd | hd
      · exact ⟨a, List.mem_cons_self .., hfresh, .head ⟨hd, hopen⟩ hleads⟩
      · exact ⟨d, List.mem_cons_of_mem _ hd, hopen, hleads⟩

/-- All that is to be visited has been seen before or is visited. -/
theorem mem_seen_or_visited_of_mem (h : a ∈ todo) :
    a.1 ∈ seen ∨ a.1 ∈ (g.firstVisits next seen todo).map Prod.fst := by
  induction seen, todo using visits_induction g next with
  | nil seen => cases h
  | seen seen b rest hseen ih =>
      rw [firstVisits_of_seen hseen]
      rcases List.mem_cons.1 h with rfl | h
      · exact .inl hseen
      · exact ih h
  | fresh seen b rest hfresh ih =>
      rw [firstVisits_of_fresh hfresh, List.map_cons]
      rcases List.mem_cons.1 h with rfl | h
      · exact .inr (List.mem_cons_self ..)
      · rcases ih (List.mem_append_right _ h) with hseen | hvisited
        · rcases List.mem_cons.1 hseen with heq | hseen
          · exact .inr (heq ▸ List.mem_cons_self ..)
          · exact .inl hseen
        · exact .inr (List.mem_cons_of_mem _ hvisited)

/-- What a visited struct leads to has been seen before or is visited, too. -/
theorem mem_seen_or_visited_of_successor (h : a ∈ g.firstVisits next seen todo)
    (hb : b ∈ g.successors next a) :
    b.1 ∈ seen ∨ b.1 ∈ (g.firstVisits next seen todo).map Prod.fst := by
  induction seen, todo using visits_induction g next with
  | nil seen => simp at h
  | seen seen d rest hseen ih =>
      rw [firstVisits_of_seen hseen] at h ⊢
      exact ih h
  | fresh seen d rest hfresh ih =>
      rw [firstVisits_of_fresh hfresh] at h ⊢
      rw [List.map_cons]
      have hlater : b.1 ∈ d.1 :: seen ∨
          b.1 ∈ (g.firstVisits next (d.1 :: seen) (g.successors next d ++ rest)).map Prod.fst := by
        rcases List.mem_cons.1 h with rfl | h
        · exact mem_seen_or_visited_of_mem (List.mem_append_left _ hb)
        · exact ih h
      rcases hlater with hseen | hvisited
      · rcases List.mem_cons.1 hseen with heq | hseen
        · exact .inr (heq ▸ List.mem_cons_self ..)
        · exact .inl hseen
      · exact .inr (List.mem_cons_of_mem _ hvisited)

/-! ## Unfolding -/

/-- The structs the fields of a struct open, in the order of the fields. -/
def opened (g : Graph) (id : StructId) : List StructId :=
  (g.fieldsAt id).filterMap Field.nestedTarget?

theorem mem_opened_iff {s t : StructId} :
    t ∈ g.opened s ↔ ∃ f ∈ g.fieldsAt s, f.nestedTarget? = some t := List.mem_filterMap

theorem map_successors (hnext : ∀ s label, (next s label).map Prod.fst = nestedTargets s)
    (a : StructId × α) : (g.successors next a).map Prod.fst = g.opened a.1 := by
  rw [successors, opened, fieldsAt]
  cases g.get? a.1 with
  | none => rfl
  | some s => exact hnext s a.2

/-- `all` are the structs met from `ids` on, depth first, each as often as it is met. -/
inductive Unfolds (g : Graph) : List StructId → List StructId → Prop
  | nil : Unfolds g [] []
  | cons {id : StructId} {ids below behind : List StructId}
      (hbelow : Unfolds g (g.opened id) below) (h : Unfolds g ids behind) :
      Unfolds g (id :: ids) (id :: (below ++ behind))

variable {ids all : List StructId} {order : List StructId} {id : StructId}

theorem exists_unfolds_of_forall (h : ∀ id ∈ ids, ∃ below, g.Unfolds (g.opened id) below) :
    ∃ all, g.Unfolds ids all := by
  induction ids with
  | nil => exact ⟨[], .nil⟩
  | cons id rest ih =>
      obtain ⟨hid, hrest⟩ := List.forall_mem_cons.1 h
      obtain ⟨below, hbelow⟩ := hid
      obtain ⟨behind, hbehind⟩ := ih hrest
      exact ⟨id :: (below ++ behind), .cons hbelow hbehind⟩

/-- Where links run in no circle, unfolding comes to an end. -/
theorem LinkOrder.exists_unfolds (h : g.LinkOrder order) (ids : List StructId) :
    ∃ all, g.Unfolds ids all := by
  have hbelow (id : StructId) : ∃ below, g.Unfolds (g.opened id) below := by
    induction hrank : order.idxOf id using Nat.strongRecOn generalizing id with
    | ind rank ih =>
        subst hrank
        refine exists_unfolds_of_forall fun t ht => ?_
        obtain ⟨f, hf, hopens⟩ := mem_opened_iff.1 ht
        exact ih _ (h.idxOf_lt (linksTo_of_nestedTarget? hf hopens)) t rfl
  exact exists_unfolds_of_forall fun id _ => hbelow id

namespace Unfolds

/-- Chains lead to all that is met. -/
theorem mem_iff (h : g.Unfolds ids all) :
    id ∈ all ↔ ∃ s ∈ ids, ∃ chain, g.Chain s chain id := by
  induction h with
  | nil => simp
  | @cons s rest below behind _ _ ihbelow ih =>
      rw [List.mem_cons, List.mem_append, ihbelow, ih]
      constructor
      · rintro (rfl | ⟨t, ht, chain, hchain⟩ | ⟨t, ht, chain, hchain⟩)
        · exact ⟨id, List.mem_cons_self .., [], .nil id⟩
        · obtain ⟨f, hf, hopens⟩ := mem_opened_iff.1 ht
          exact ⟨s, List.mem_cons_self .., f :: chain, .cons hf hopens hchain⟩
        · exact ⟨t, List.mem_cons_of_mem _ ht, chain, hchain⟩
      · rintro ⟨t, ht, chain, hchain⟩
        rcases List.mem_cons.1 ht with rfl | ht
        · cases hchain with
          | nil => exact .inl rfl
          | cons mem opens rest =>
              exact .inr (.inl ⟨_, mem_opened_iff.2 ⟨_, mem, opens⟩, _, rest⟩)
        · exact .inr (.inr ⟨t, ht, chain, hchain⟩)

theorem mem_of_mem_opened (h : g.Unfolds ids all) {s : StructId} (hs : s ∈ all)
    (hid : id ∈ g.opened s) : id ∈ all := by
  obtain ⟨t, ht, chain, hchain⟩ := h.mem_iff.1 hs
  obtain ⟨f, hf, hopens⟩ := mem_opened_iff.1 hid
  exact h.mem_iff.2 ⟨t, ht, chain ++ [f], hchain.concat hf hopens⟩

theorem subset_all (h : g.Unfolds ids all) : ids ⊆ all := fun s hs =>
  h.mem_iff.2 ⟨s, hs, [], .nil s⟩

/-- No struct is met below itself. -/
theorem notMem_below (h : g.Unfolds (g.opened id) all) (horder : g.LinkOrder order) :
    id ∉ all := by
  intro hmem
  obtain ⟨s, hs, chain, hchain⟩ := h.mem_iff.1 hmem
  obtain ⟨f, hf, hopens⟩ := mem_opened_iff.1 hs
  have hlt := horder.idxOf_lt (linksTo_of_nestedTarget? hf hopens)
  exact absurd (horder.idxOf_le_of_chain hchain) (Nat.not_le.2 hlt)

end Unfolds

/-! ### First copies -/

/-- The first copies of what is not in `seen`. -/
def firstCopies (seen all : List StructId) : List StructId := (all.removeAll seen).eraseDups

theorem mem_firstCopies_iff : id ∈ firstCopies seen all ↔ id ∈ all ∧ id ∉ seen := by
  rw [firstCopies, List.mem_eraseDups, List.removeAll, List.mem_filter]
  simp

theorem firstCopies_nil (all : List StructId) : firstCopies [] all = all.eraseDups := by
  simp [firstCopies, List.removeAll]

theorem firstCopies_eq_nil (h : all ⊆ seen) : firstCopies seen all = [] :=
  List.eq_nil_iff_forall_not_mem.2 fun _ hid =>
    (mem_firstCopies_iff.1 hid).2 (h (mem_firstCopies_iff.1 hid).1)

theorem firstCopies_cons_of_seen (h : id ∈ seen) :
    firstCopies seen (id :: all) = firstCopies seen all := by
  simp [firstCopies, List.removeAll, h]

theorem firstCopies_cons_of_fresh (h : id ∉ seen) :
    firstCopies seen (id :: all) = id :: firstCopies (id :: seen) all := by
  have hcons : (id :: all).removeAll seen = id :: all.removeAll seen := by
    simp [List.removeAll, h]
  rw [firstCopies, hcons, List.eraseDups_cons, firstCopies, List.removeAll_cons, List.removeAll,
    List.removeAll, List.filter_comm]

theorem firstCopies_append (seen all later : List StructId) :
    firstCopies seen (all ++ later) =
      firstCopies seen all ++ firstCopies ((firstCopies seen all).reverse ++ seen) later := by
  have hlater : (later.removeAll seen).removeAll (all.removeAll seen) =
      later.removeAll ((firstCopies seen all).reverse ++ seen) := by
    rw [List.removeAll, List.removeAll, List.removeAll, List.filter_filter]
    refine List.filter_congr fun id _ => Bool.eq_iff_iff.2 ?_
    simp [mem_firstCopies_iff]
  rw [firstCopies, List.removeAll, List.filter_append, List.eraseDups_append]
  exact congrArg _ (congrArg List.eraseDups hlater)

/-! ### The order of visits -/

/-- Of the structs in `all`, those that were seen have been left for good. -/
def ClosedIn (g : Graph) (seen all : List StructId) : Prop :=
  ∀ s ∈ all, s ∈ seen → g.opened s ⊆ seen

theorem Unfolds.subset_of_closedIn (h : g.Unfolds ids all) (hclosed : g.ClosedIn seen all)
    (hids : ids ⊆ seen) : all ⊆ seen := by
  induction h with
  | nil => exact hids
  | @cons s rest below behind _ _ ihbelow ih =>
      obtain ⟨hs, hrest⟩ := List.cons_subset.1 hids
      obtain ⟨hself, hothers⟩ := List.forall_mem_cons.1 hclosed
      obtain ⟨hbelow, hbehind⟩ := List.forall_mem_append.1 hothers
      exact List.cons_subset.2 ⟨hs, List.append_subset.2
        ⟨ihbelow hbelow (hself hs), ih hbehind hrest⟩⟩

/-- When all below a struct has been visited, the struct is left for good. -/
theorem Unfolds.closedIn_behind {below behind : List StructId}
    (h : g.Unfolds (g.opened id) below) (hclosed : g.ClosedIn seen behind) :
    g.ClosedIn ((firstCopies (id :: seen) below).reverse ++ id :: seen) behind := by
  have hmet : below ⊆ (firstCopies (id :: seen) below).reverse ++ id :: seen := by
    intro s hs
    by_cases hmem : s ∈ id :: seen
    · exact List.mem_append_right _ hmem
    · exact List.mem_append_left _ (List.mem_reverse.2 (mem_firstCopies_iff.2 ⟨hs, hmem⟩))
  intro s hs hmem t ht
  rcases List.mem_append.1 hmem with hmem | hmem
  · have hbelow := (mem_firstCopies_iff.1 (List.mem_reverse.1 hmem)).1
    exact hmet (h.mem_of_mem_opened hbelow ht)
  · rcases List.mem_cons.1 hmem with rfl | hmem
    · exact hmet (h.subset_all ht)
    · exact List.mem_append_right _ (List.mem_cons_of_mem _ (hclosed s hs hmem ht))

/-- A traversal visits the first copies of what is unfolded. -/
theorem Unfolds.map_firstVisits (h : g.Unfolds ids all) (horder : g.LinkOrder order)
    (hnext : ∀ s label, (next s label).map Prod.fst = nestedTargets s)
    (htodo : todo.map Prod.fst = ids) (hclosed : g.ClosedIn seen all) :
    (g.firstVisits next seen todo).map Prod.fst = firstCopies seen all := by
  induction h generalizing seen todo with
  | nil =>
      rw [List.map_eq_nil_iff.1 htodo, firstVisits_nil]
      rfl
  | @cons id rest below behind hbelow hbehind ihbelow ih =>
      obtain ⟨a, later, rfl, rfl, hlater⟩ := List.map_eq_cons_iff.1 htodo
      obtain ⟨hself, hothers⟩ := List.forall_mem_cons.1 hclosed
      obtain ⟨hclosed, hclosed'⟩ := List.forall_mem_append.1 hothers
      by_cases hseen : a.1 ∈ seen
      · -- what is below a seen struct has been seen, too
        have hsubset := hbelow.subset_of_closedIn hclosed (hself hseen)
        rw [firstVisits_of_seen hseen, firstCopies_cons_of_seen hseen, firstCopies_append,
          firstCopies_eq_nil hsubset, ih hlater hclosed']
        rfl
      · have hinner : g.ClosedIn (a.1 :: seen) below := by
          intro s hs hmem
          rcases List.mem_cons.1 hmem with rfl | hmem
          · exact absurd hs (hbelow.notMem_below horder)
          · exact List.subset_cons_of_subset _ (hclosed s hs hmem)
        have hfirst := ihbelow (map_successors hnext a) hinner
        rw [firstVisits_of_fresh hseen, firstVisits_append, List.map_cons, List.map_append,
          firstCopies_cons_of_fresh hseen, firstCopies_append, hfirst, ih hlater]
        exact hbelow.closedIn_behind hclosed'

/-! ### What is reached -/

/-- What is reached are the first copies of what is unfolded from the roots. -/
theorem Unfolds.reached_eq {roots : List StructId} (h : g.Unfolds roots all)
    (horder : g.LinkOrder order) : g.reached roots = all.eraseDups := by
  rw [reached, h.map_firstVisits horder, firstCopies_nil]
  · intro s label
    rw [List.map_map]
    exact List.map_id _
  · rw [List.map_map]
    exact List.map_id _
  · exact fun _ _ hs => absurd hs List.not_mem_nil

theorem LinkOrder.mem_reached_iff (h : g.LinkOrder order) (roots : List StructId) :
    id ∈ g.reached roots ↔ ∃ s ∈ roots, ∃ chain, g.Chain s chain id := by
  obtain ⟨all, hall⟩ := h.exists_unfolds roots
  rw [hall.reached_eq h, List.mem_eraseDups, hall.mem_iff]

theorem nodup_reached (g : Graph) (roots : List StructId) : (g.reached roots).Nodup :=
  nodup_firstVisits ..

end RecordSchema.Schema.Graph
