import Mathlib.Algebra.Order.Floor.Div
import RecordSchema.Generation.Coverage
import RecordSchema.Proofs.Text.OctetOrder

/-!
# Batches

Batches cut the contexts, sorted by path, into runs.  Sorting is stable, so what is filtered out
before it might as well be filtered out after it.  A list has one stable sort, and this is what the
batches hold one after the other; all of them but the last are full.
-/

namespace RecordSchema.Generation

/-! ## Stable sorting -/

section Stable

variable {α : Type} {le : α → α → Bool} (trans : ∀ a b c, le a b → le b c → le a c)
  (total : ∀ a b, le a b || le b a)

include trans total

/-- The first element comes right before those it is not above. -/
theorem mergeSort_cons_eq (a : α) (l : List α) :
    (a :: l).mergeSort le =
      (l.mergeSort le).filter (!le a ·) ++ a :: (l.mergeSort le).filter (le a ·) := by
  obtain ⟨below, above, hcons, hsplit, hbelow⟩ := List.mergeSort_cons trans total a l
  have hsorted := List.pairwise_mergeSort trans total (a :: l)
  rw [hcons] at hsorted
  have habove : ∀ b ∈ above, le a b = true :=
    (List.pairwise_cons.1 (List.pairwise_append.1 hsorted).2.1).1
  have hfront : (below ++ above).filter (!le a ·) = below := by
    rw [List.filter_append, List.filter_eq_self.2 hbelow,
      List.filter_eq_nil_iff.2 fun b hb => by simp [habove b hb], List.append_nil]
  have hback : (below ++ above).filter (le a ·) = above := by
    rw [List.filter_append, List.filter_eq_self.2 habove,
      List.filter_eq_nil_iff.2 fun b hb => by simpa using hbelow b hb, List.nil_append]
  rw [hcons, hsplit, hfront, hback]

/-- Filtering and sorting can be swapped. -/
theorem mergeSort_filter (p : α → Bool) (l : List α) :
    (l.filter p).mergeSort le = (l.mergeSort le).filter p := by
  induction l with
  | nil => simp
  | cons a rest ih =>
      by_cases ha : p a = true
      · have hswap (q : α → Bool) : ((rest.filter p).mergeSort le).filter q =
            ((rest.mergeSort le).filter q).filter p := by
          rw [ih, List.filter_filter, List.filter_filter]
          exact List.filter_congr fun b _ => Bool.and_comm ..
        rw [List.filter_cons_of_pos ha, mergeSort_cons_eq trans total a,
          mergeSort_cons_eq trans total a, List.filter_append, List.filter_cons_of_pos ha, hswap,
          hswap]
      · obtain ⟨below, above, hcons, hsplit, -⟩ := List.mergeSort_cons trans total a rest
        rw [List.filter_cons_of_neg ha, ih, hcons, hsplit, List.filter_append, List.filter_append,
          List.filter_cons_of_neg ha]

end Stable

/-! ## Sorting by path -/

/-- The contexts in the order in which batches hold them. -/
def sortByPath (contexts : List FieldContext) : List FieldContext :=
  contexts.mergeSort fun a b => decide (a.path ≤ b.path)

theorem trans_path (a b c : FieldContext) (hab : decide (a.path ≤ b.path) = true)
    (hbc : decide (b.path ≤ c.path) = true) : decide (a.path ≤ c.path) = true := by
  rw [decide_eq_true_iff] at hab hbc ⊢
  exact String.le_trans hab hbc

theorem total_path (a b : FieldContext) :
    (decide (a.path ≤ b.path) || decide (b.path ≤ a.path)) = true := by
  simpa using String.le_total a.path b.path

theorem sortByPath_filter (p : FieldContext → Bool) (contexts : List FieldContext) :
    sortByPath (contexts.filter p) = (sortByPath contexts).filter p :=
  mergeSort_filter trans_path total_path p contexts

variable {contexts sorted sorted' l l' batch : List FieldContext} {extra : Nat}

/-- The contexts of `sorted` are those of `contexts`, their paths ascend octet by octet, and
contexts with one path come in the order they had. -/
structure SortsByPath (contexts sorted : List FieldContext) : Prop where
  perm : sorted.Perm contexts
  ascending : sorted.Pairwise fun a b => Text.octets a.path ≤ Text.octets b.path
  stable : ∀ path, sorted.filter (·.path = path) = contexts.filter (·.path = path)

/-- The contexts of one path are sorted already. -/
theorem sortByPath_of_same (path : String) (h : ∀ c ∈ contexts, c.path = path) :
    sortByPath contexts = contexts := by
  refine List.mergeSort_of_pairwise (List.pairwise_of_forall_mem_list fun a ha b hb => ?_)
  rw [h a ha, h b hb]
  exact decide_eq_true (String.le_refl path)

theorem sortsByPath_sortByPath (contexts : List FieldContext) :
    SortsByPath contexts (sortByPath contexts) where
  perm := List.mergeSort_perm ..
  ascending := by
    have hsorted := List.pairwise_mergeSort trans_path total_path contexts
    exact hsorted.imp fun hab => Text.octets_le_iff.2 (of_decide_eq_true hab)
  stable path := by
    rw [← sortByPath_filter]
    refine sortByPath_of_same path fun c hc => ?_
    simpa using (List.mem_filter.1 hc).2

theorem path_le_of_mem {a b : FieldContext} (h : (a :: l).Pairwise fun a b => a.path ≤ b.path)
    (hb : b ∈ a :: l) : a.path ≤ b.path := by
  rcases List.mem_cons.1 hb with rfl | hb
  · exact String.le_refl _
  · exact List.rel_of_pairwise_cons h hb

theorem mem_iff_of_filter_eq
    (h : ∀ path, l.filter (·.path = path) = l'.filter (·.path = path)) (c : FieldContext) :
    c ∈ l ↔ c ∈ l' := by
  have hc : c ∈ l.filter (·.path = c.path) ↔ c ∈ l'.filter (·.path = c.path) := by
    rw [h]
  simpa using hc

/-- Lists that are sorted by path are equal if they agree on each path. -/
theorem eq_of_filter_eq (hl : l.Pairwise fun a b => a.path ≤ b.path)
    (hl' : l'.Pairwise fun a b => a.path ≤ b.path)
    (h : ∀ path, l.filter (·.path = path) = l'.filter (·.path = path)) : l = l' := by
  induction l generalizing l' with
  | nil =>
      cases l' with
      | nil => rfl
      | cons b l' => simpa using h b.path
  | cons a l ih =>
      cases l' with
      | nil => simpa using h a.path
      | cons b l' =>
          have hmem := mem_iff_of_filter_eq h
          have hpath : a.path = b.path :=
            String.le_antisymm (path_le_of_mem hl ((hmem b).2 List.mem_cons_self))
              (path_le_of_mem hl' ((hmem a).1 List.mem_cons_self))
          have hfirst := h a.path
          rw [List.filter_cons_of_pos (by simp), List.filter_cons_of_pos (by simp [hpath])]
            at hfirst
          obtain rfl : a = b := (List.cons.inj hfirst).1
          have htail (path : String) : l.filter (·.path = path) = l'.filter (·.path = path) := by
            have hall := h path
            by_cases ha : a.path = path
            · rw [List.filter_cons_of_pos (by simpa using ha),
                List.filter_cons_of_pos (by simpa using ha)] at hall
              exact (List.cons.inj hall).2
            · rwa [List.filter_cons_of_neg (by simpa using ha),
                List.filter_cons_of_neg (by simpa using ha)] at hall
          rw [ih (List.pairwise_cons.1 hl).2 (List.pairwise_cons.1 hl').2 htail]

/-- A list has one stable sort. -/
theorem SortsByPath.unique (h : SortsByPath contexts sorted) (h' : SortsByPath contexts sorted') :
    sorted = sorted' := by
  have hle {l : List FieldContext}
      (hl : l.Pairwise fun a b => Text.octets a.path ≤ Text.octets b.path) :
      l.Pairwise fun a b => a.path ≤ b.path := hl.imp Text.octets_le_iff.1
  refine eq_of_filter_eq (hle h.ascending) (hle h'.ascending) fun path => ?_
  rw [h.stable, h'.stable]

/-! ## Cutting into batches -/

theorem flatten_chunks (extra : Nat) (contexts : List FieldContext) :
    (chunks extra contexts).flatten = contexts := by
  induction contexts using chunks.induct extra with
  | case1 => rw [chunks, List.flatten_nil]
  | case2 first rest ih =>
      rw [chunks, List.flatten_cons, ih, List.cons_append, List.take_append_drop]

theorem nil_notMem_chunks (extra : Nat) (contexts : List FieldContext) :
    [] ∉ chunks extra contexts := by
  induction contexts using chunks.induct extra with
  | case1 =>
      rw [chunks]
      exact List.not_mem_nil
  | case2 first rest ih =>
      rw [chunks]
      exact List.not_mem_cons_of_ne_of_not_mem (List.cons_ne_nil _ _).symm ih

theorem chunks_eq_nil_iff : chunks extra contexts = [] ↔ contexts = [] := by
  cases contexts <;> simp [chunks]

theorem length_of_mem_chunks (h : batch ∈ chunks extra contexts) : batch.length ≤ extra + 1 := by
  induction contexts using chunks.induct extra with
  | case1 =>
      rw [chunks] at h
      cases h
  | case2 first rest ih =>
      rw [chunks, List.mem_cons] at h
      rcases h with rfl | h
      · rw [List.length_cons, List.length_take]
        omega
      · exact ih h

/-- Only the last batch may be too short. -/
theorem length_of_mem_dropLast_chunks (h : batch ∈ (chunks extra contexts).dropLast) :
    batch.length = extra + 1 := by
  induction contexts using chunks.induct extra with
  | case1 =>
      rw [chunks] at h
      cases h
  | case2 first rest ih =>
      rw [chunks] at h
      by_cases hlast : chunks extra (rest.drop extra) = []
      · rw [hlast, List.dropLast_singleton] at h
        cases h
      · rw [List.dropLast_cons_of_ne_nil hlast, List.mem_cons] at h
        rcases h with rfl | h
        · have hlong : ¬rest.length ≤ extra := by
            rwa [← List.drop_eq_nil_iff, ← chunks_eq_nil_iff]
          rw [List.length_cons, List.length_take]
          omega
        · exact ih h

theorem length_chunks (extra : Nat) (contexts : List FieldContext) :
    (chunks extra contexts).length = contexts.length ⌈/⌉ (extra + 1) := by
  induction contexts using chunks.induct extra with
  | case1 => rw [chunks, List.length_nil, List.length_nil, zero_ceilDiv]
  | case2 first rest ih =>
      have hall : rest.length + 1 + (extra + 1) - 1 = rest.length + (extra + 1) := by omega
      rw [chunks, List.length_cons, ih, List.length_drop, List.length_cons,
        Nat.ceilDiv_eq_add_pred_div, Nat.ceilDiv_eq_add_pred_div, hall,
        Nat.add_div_right _ extra.succ_pos]
      -- behind the first batch there are contexts only if it is full
      rcases Nat.le_total extra rest.length with hfull | hshort
      · have hrest : rest.length - extra + (extra + 1) - 1 = rest.length := by omega
        rw [hrest]
      · have hrest : rest.length - extra + (extra + 1) - 1 = extra := by omega
        rw [hrest, Nat.div_eq_of_lt extra.lt_succ_self, Nat.div_eq_of_lt (Nat.lt_succ_of_le hshort)]

/-- Batches hold the contexts in the order of their paths. -/
theorem flatten_buildBatches (contexts : List FieldContext) (size : Nat) :
    (buildBatches contexts size).flatten = sortByPath contexts :=
  flatten_chunks ..

/-- Batches hold, one after the other, the stable sort by path.  None is empty, all but the last
have the size that was asked for, or one for a size of zero, and the last has no more. -/
theorem buildBatches_cuts (contexts : List FieldContext) (size : Nat) :
    (∀ sorted, SortsByPath contexts sorted ↔ (buildBatches contexts size).flatten = sorted) ∧
    [] ∉ buildBatches contexts size ∧
    (∀ batch ∈ (buildBatches contexts size).dropLast, batch.length = max 1 size) ∧
    (∀ batch ∈ buildBatches contexts size, batch.length ≤ max 1 size) ∧
    (buildBatches contexts size).length = contexts.length ⌈/⌉ max 1 size := by
  have hsize : max 1 size = size - 1 + 1 := by omega
  have hsorts := sortsByPath_sortByPath contexts
  rw [flatten_buildBatches, hsize]
  refine ⟨fun sorted => ⟨hsorts.unique, ?_⟩, nil_notMem_chunks _ _, ?_, ?_, ?_⟩
  · rintro rfl
    exact hsorts
  · intro batch hbatch
    exact length_of_mem_dropLast_chunks hbatch
  · intro batch hbatch
    exact length_of_mem_chunks hbatch
  · rw [buildBatches, length_chunks, List.length_mergeSort]

/-- A text field that documents need not have. -/
def textContext (path xmlPath : String) : FieldContext where
  path
  xmlPath
  optional := true
  required := false
  computed := false
  presenceBoolean := false
  stringToBool := false
  trueToken := ""
  falseToken := ""
  flattenedAttribute := none
  validValues := []

/-- Of two contexts with one path, the one that came first is still in the first batch. -/
theorem buildBatches_cuts_pool :
    let name := textContext "pool.name" "pool/name"
    let capacity := textContext "pool.capacity" "pool/capacity"
    let label := textContext "pool.name" "pool/@name"
    buildBatches [name, capacity, label] 2 = [[capacity, name], [label]] ∧
      SortsByPath [name, capacity, label] [capacity, name, label] ∧
      [capacity, name].length = max 1 2 := by
  intro name capacity label
  have hcapacity : "pool.capacity" ≤ "pool.name" := by decide
  have hname : ¬"pool.name" ≤ "pool.capacity" := by decide
  have hbatches : buildBatches [name, capacity, label] 2 = [[capacity, name], [label]] := by
    simp [buildBatches, chunks, List.mergeSort, List.MergeSort.Internal.splitInTwo, name, capacity,
      label, textContext, hcapacity, hname]
  obtain ⟨hsorts, -, hfull, -, -⟩ := buildBatches_cuts [name, capacity, label] 2
  rw [hbatches] at hsorts hfull
  exact ⟨hbatches, (hsorts _).2 rfl, hfull _ (List.mem_singleton_self _)⟩

end RecordSchema.Generation
