import Mathlib.Logic.Relation
import RecordSchema.Schema.PathWalk

/-!
# Walks without a bound

The walk along paths as it is meant, without a bound on its depth: a relation between what is to be
visited, what was visited before and what has been visited in the end.  A walk that runs in circles
has no end and is not in it.  Where a rank becomes smaller with every step down, the walk ends, and
a bounded walk that is deep enough for the ranks is the same walk.  A walk that ends has visited no
path twice, and where paths tell the nodes apart it has visited all that can be reached.  What a
walk visits does not depend on what its nodes carry besides.
-/

namespace RecordSchema.Schema.PathWalk

variable {α : Type} {w : PathWalk α} {todo : List α} {v v₁ v₂ : Visited α}

/-- A node has been visited. -/
def Visited.mark (v : Visited α) (path : String) (a : α) : Visited α :=
  { nodes := a :: v.nodes, paths := v.paths.insert path }

/-- The walk over `todo` comes to an end. -/
inductive Runs (w : PathWalk α) : List α → Visited α → Visited α → Prop
  | done (v : Visited α) : Runs w [] v v
  | seen {a : α} {rest : List α} {v v' : Visited α}
      (hseen : v.paths.contains (w.path a) = true) (h : Runs w rest v v') :
      Runs w (a :: rest) v v'
  | fresh {a : α} {rest : List α} {v v₁ v₂ : Visited α}
      (hfresh : v.paths.contains (w.path a) = false)
      (hbelow : Runs w (w.below a) (v.mark (w.path a) a) v₁) (h : Runs w rest v₁ v₂) :
      Runs w (a :: rest) v v₂

/-- A bounded walk that is deep enough is the walk. -/
theorem runs_visit (rank : α → Nat) (hrank : ∀ a, ∀ b ∈ w.below a, rank b < rank a) {depth : Nat}
    (hdepth : ∀ a ∈ todo, rank a < depth) (v : Visited α) :
    w.Runs todo v (w.visit depth todo v) := by
  induction depth, todo, v using visit.induct w with
  | case1 todo v =>
      cases todo with
      | nil =>
          rw [visit]
          exact .done v
      | cons a rest => exact absurd (hdepth a (List.mem_cons_self ..)) (Nat.not_lt_zero _)
  | case2 depth v hpos =>
      rw [visit]
      · exact .done v
      · exact hpos
  | case3 v depth a rest hseen ih =>
      rw [visit, if_pos hseen]
      exact .seen hseen (ih fun b hb => hdepth b (List.mem_cons_of_mem _ hb))
  | case4 v depth a rest hfresh here ihbelow _ ih =>
      rw [visit, if_neg hfresh]
      refine .fresh (Bool.eq_false_iff.2 hfresh) (ihbelow fun b hb => ?_)
        (ih fun b hb => hdepth b (List.mem_cons_of_mem _ hb))
      exact Nat.lt_of_lt_of_le (hrank a b hb) (Nat.le_of_lt_succ (hdepth a (List.mem_cons_self ..)))

/-! ## Images -/

section Image

variable {β : Type} {w' : PathWalk β} {φ : α → β}

/-- The visited nodes seen through `φ`. -/
def Visited.map (φ : α → β) (v : Visited α) : Visited β :=
  { nodes := v.nodes.map φ, paths := v.paths }

/-- A map that keeps paths and what is below maps walks to walks. -/
theorem visit_map (hpath : ∀ a, w'.path (φ a) = w.path a)
    (hbelow : ∀ a, w'.below (φ a) = (w.below a).map φ) (depth : Nat) (todo : List α)
    (v : Visited α) : w'.visit depth (todo.map φ) (v.map φ) = (w.visit depth todo v).map φ := by
  induction depth, todo, v using visit.induct w with
  | case1 todo v => rw [visit, visit]
  | case2 depth v hpos => simp [visit]
  | case3 v depth a rest hseen ih =>
      have hseen' : (v.map φ).paths.contains (w'.path (φ a)) = true := (hpath a).symm ▸ hseen
      rw [List.map_cons, visit, visit, if_pos hseen, if_pos hseen', ih]
  | case4 v depth a rest hfresh here ihbelow _ ih =>
      have hfresh' : ¬(v.map φ).paths.contains (w'.path (φ a)) = true := (hpath a).symm ▸ hfresh
      have hhere : Visited.map φ here =
          { nodes := φ a :: (v.map φ).nodes
            paths := (v.map φ).paths.insert (w'.path (φ a)) } := by
        rw [hpath]
        rfl
      rw [List.map_cons, visit, visit, if_neg hfresh, if_neg hfresh', ← ih, ← ihbelow, hhere,
        hbelow]

theorem visits_map (hpath : ∀ a, w'.path (φ a) = w.path a)
    (hbelow : ∀ a, w'.below (φ a) = (w.below a).map φ) (depth : Nat) (roots : List α) :
    w'.visits depth (roots.map φ) = (w.visits depth roots).map φ := by
  rw [visits, visits, List.map_reverse]
  exact congrArg (·.nodes.reverse) (visit_map hpath hbelow depth roots {})

end Image

/-! ## What is visited -/

/-- Steps down lead from `a` to `b`. -/
def Reaches (w : PathWalk α) : α → α → Prop := Relation.ReflTransGen fun a b => b ∈ w.below a

/-- The paths that count as met are those of the visited nodes, which are all different. -/
structure Visited.Consistent (w : PathWalk α) (v : Visited α) : Prop where
  contains : ∀ path, v.paths.contains path = true ↔ path ∈ v.nodes.map w.path
  nodup : (v.nodes.map w.path).Nodup

theorem Visited.consistent_empty (w : PathWalk α) : Visited.Consistent w {} where
  contains path := by simp
  nodup := List.nodup_nil

theorem Visited.contains_mark (v : Visited α) (path other : String) (a : α) :
    (v.mark path a).paths.contains other = true ↔
      other = path ∨ v.paths.contains other = true := by
  rw [mark, Std.TreeSet.contains_insert, Bool.or_eq_true, beq_iff_eq,
    Std.LawfulEqCmp.compare_eq_iff_eq, eq_comm]

theorem Visited.Consistent.mark {v : Visited α} (h : v.Consistent w) {a : α}
    (hfresh : v.paths.contains (w.path a) = false) : (v.mark (w.path a) a).Consistent w where
  contains path := by
    rw [contains_mark, h.contains, Visited.mark, List.map_cons, List.mem_cons]
  nodup := by
    rw [Visited.mark, List.map_cons, List.nodup_cons, ← h.contains, hfresh]
    exact ⟨Bool.false_ne_true, h.nodup⟩

namespace Runs

variable {v' : Visited α}

theorem consistent (h : w.Runs todo v v') (hv : v.Consistent w) : v'.Consistent w := by
  induction h with
  | done _ => exact hv
  | seen _ _ ih => exact ih hv
  | fresh hfresh _ _ ihbelow ih => exact ih (ihbelow (hv.mark hfresh))

theorem contains_mono (h : w.Runs todo v v') {path : String}
    (hpath : v.paths.contains path = true) : v'.paths.contains path = true := by
  induction h with
  | done _ => exact hpath
  | seen _ _ ih => exact ih hpath
  | fresh _ _ _ ihbelow ih => exact ih (ihbelow ((Visited.contains_mark ..).2 (.inr hpath)))

/-- Only what can be reached is visited. -/
theorem exists_reaches (h : w.Runs todo v v') {b : α} (hb : b ∈ v'.nodes) :
    b ∈ v.nodes ∨ ∃ a ∈ todo, w.Reaches a b := by
  induction h with
  | done _ => exact .inl hb
  | seen _ _ ih =>
      rcases ih hb with hb | ⟨a, ha, hreach⟩
      · exact .inl hb
      · exact .inr ⟨a, List.mem_cons_of_mem _ ha, hreach⟩
  | @fresh a rest v v₁ v₂ _ _ _ ihbelow ih =>
      rcases ih hb with hb | ⟨d, hd, hreach⟩
      · rcases ihbelow hb with hb | ⟨d, hd, hreach⟩
        · rcases List.mem_cons.1 hb with rfl | hb
          · exact .inr ⟨b, List.mem_cons_self .., .refl⟩
          · exact .inl hb
        · exact .inr ⟨a, List.mem_cons_self .., .head hd hreach⟩
      · exact .inr ⟨d, List.mem_cons_of_mem _ hd, hreach⟩

/-- The paths of all that was to be visited are met in the end. -/
theorem contains_todo (h : w.Runs todo v v') :
    ∀ a ∈ todo, v'.paths.contains (w.path a) = true := by
  induction h with
  | done _ => exact fun _ ha => by cases ha
  | seen hseen h ih => exact List.forall_mem_cons.2 ⟨h.contains_mono hseen, ih⟩
  | fresh _ hbelow h _ ih =>
      have hmark := hbelow.contains_mono ((Visited.contains_mark ..).2 (.inl rfl))
      exact List.forall_mem_cons.2 ⟨h.contains_mono hmark, ih⟩

/-- Below a visited node the paths are met, too. -/
theorem contains_below (h : w.Runs todo v v') {b : α} (hb : b ∈ v'.nodes) (hnew : b ∉ v.nodes) :
    ∀ d ∈ w.below b, v'.paths.contains (w.path d) = true := by
  induction h with
  | done _ => exact absurd hb hnew
  | seen _ _ ih => exact ih hb hnew
  | @fresh a rest v v₁ v₂ _ hbelow h ihbelow ih =>
      by_cases hearly : b ∈ v₁.nodes
      · by_cases hhere : b ∈ (v.mark (w.path a) a).nodes
        · obtain rfl := (List.mem_cons.1 hhere).resolve_right hnew
          exact fun d hd => h.contains_mono (hbelow.contains_todo d hd)
        · exact fun d hd => h.contains_mono (ihbelow hearly hhere d hd)
      · exact ih hb hearly

/-- Where paths tell apart what can be reached, just that is visited. -/
theorem mem_nodes_iff (h : w.Runs todo {} v)
    (hpath : ∀ a ∈ todo, ∀ b, w.Reaches a b → ∀ a' ∈ todo, ∀ b', w.Reaches a' b' →
      w.path b = w.path b' → b = b') {b : α} :
    b ∈ v.nodes ↔ ∃ a ∈ todo, w.Reaches a b := by
  have hcontains := (h.consistent (Visited.consistent_empty w)).contains
  -- a node whose path is met has been visited itself
  have hself : ∀ a ∈ todo, ∀ b, w.Reaches a b → v.paths.contains (w.path b) = true →
      b ∈ v.nodes := by
    intro a ha b hreach hmet
    obtain ⟨b', hb', heq⟩ := List.mem_map.1 ((hcontains _).1 hmet)
    obtain ⟨a', ha', hreach'⟩ := (h.exists_reaches hb').resolve_left List.not_mem_nil
    rwa [hpath a ha b hreach a' ha' b' hreach' heq.symm]
  refine ⟨fun hb => (h.exists_reaches hb).resolve_left List.not_mem_nil, ?_⟩
  rintro ⟨a, ha, hreach⟩
  induction hreach with
  | refl => exact hself a ha a .refl (h.contains_todo a ha)
  | tail hreach hstep ih =>
      exact hself a ha _ (hreach.tail hstep) (h.contains_below ih List.not_mem_nil _ hstep)

end Runs

/-! ## In which order -/

/-- `all` is what is met from `todo` on, depth first, each as often as it is met. -/
inductive Unfolds (w : PathWalk α) : List α → List α → Prop
  | nil : Unfolds w [] []
  | cons {a : α} {rest below behind : List α} (hbelow : Unfolds w (w.below a) below)
      (h : Unfolds w rest behind) : Unfolds w (a :: rest) (a :: (below ++ behind))

theorem Unfolds.append {todo' all all' : List α} (h : w.Unfolds todo all)
    (h' : w.Unfolds todo' all') : w.Unfolds (todo ++ todo') (all ++ all') := by
  induction h with
  | nil => exact h'
  | cons hbelow _ _ ih =>
      rw [List.cons_append, List.cons_append, List.append_assoc]
      exact .cons hbelow ih

/-- Where no path is met twice, all is visited in the order in which it is met. -/
theorem Runs.nodes_of_unfolds {v' : Visited α} {all : List α} (h : w.Runs todo v v')
    (hall : w.Unfolds todo all) (hnodup : (all.map w.path).Nodup)
    (hfresh : ∀ a ∈ all, v.paths.contains (w.path a) = false) :
    v'.nodes = all.reverse ++ v.nodes ∧
      ∀ path, v'.paths.contains path = true ↔
        path ∈ all.map w.path ∨ v.paths.contains path = true := by
  induction h generalizing all with
  | done v =>
      cases hall
      simp
  | seen hseen _ _ =>
      cases hall
      exact absurd hseen (Bool.eq_false_iff.1 (hfresh _ (List.mem_cons_self ..)))
  | @fresh a rest v v₁ v₂ _ _ _ ihbelow ih =>
      obtain - | @⟨_, _, below, behind, hbelow, hbehind⟩ := hall
      rw [List.map_cons, List.map_append, List.nodup_cons, List.mem_append, not_or,
        List.nodup_append] at hnodup
      obtain ⟨⟨hnotBelow, hnotBehind⟩, hnodup, hnodup', hdisjoint⟩ := hnodup
      obtain ⟨-, hfresh⟩ := List.forall_mem_cons.1 hfresh
      obtain ⟨hfresh, hfresh'⟩ := List.forall_mem_append.1 hfresh
      -- a path that was not met before and is not that of `a` is not met behind `a` either
      have hmark {b : α} (hne : w.path b ≠ w.path a) (hb : v.paths.contains (w.path b) = false) :
          (v.mark (w.path a) a).paths.contains (w.path b) = false := by
        rw [Bool.eq_false_iff, ne_eq, Visited.contains_mark, not_or]
        exact ⟨hne, Bool.eq_false_iff.1 hb⟩
      obtain ⟨hnodes, hpaths⟩ := ihbelow hbelow hnodup fun b hb =>
        hmark (fun heq => hnotBelow (heq ▸ List.mem_map_of_mem hb)) (hfresh b hb)
      obtain ⟨hnodes', hpaths'⟩ := ih hbehind hnodup' fun b hb => by
        rw [Bool.eq_false_iff, ne_eq, hpaths, not_or]
        refine ⟨fun hmem => hdisjoint _ hmem _ (List.mem_map_of_mem hb) rfl, ?_⟩
        exact Bool.eq_false_iff.1
          (hmark (fun heq => hnotBehind (heq ▸ List.mem_map_of_mem hb)) (hfresh' b hb))
      constructor
      · rw [hnodes', hnodes, Visited.mark]
        simp
      · intro path
        rw [hpaths', hpaths, Visited.contains_mark, List.map_cons, List.map_append, List.mem_cons,
          List.mem_append]
        grind

end RecordSchema.Schema.PathWalk
