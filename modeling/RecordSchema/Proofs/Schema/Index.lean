import RecordSchema.Schema.Graph

/-!
# The index of a graph

A graph is *indexed* when its index leads from every name to the struct of that name and from no
other name anywhere.  Adding a struct, cutting structs off and changing them without renaming keep
this, and an indexed graph is determined by its structs: cutting off what was added since gives the
graph that was there before, index included.
-/

namespace RecordSchema.Schema.Graph

variable {g g' : Graph} {s t : Struct} {name other : String} {id id' : StructId}

/-- The index leads to the structs by their names, and nowhere else. -/
def Indexed (g : Graph) : Prop :=
  ∀ name id, g.lookup name = some id ↔ g.names[id]? = some name

theorem names_getElem? (g : Graph) (id : StructId) :
    g.names[id]? = (g.get? id).map Struct.name := List.getElem?_map

theorem get?_eq_some_iff_lt : (∃ s, g.get? id = some s) ↔ id < g.size := by
  rw [← Option.isSome_iff_exists, get?, isSome_getElem?, size]

theorem find?_eq_get? (hid : g.lookup name = some id) : g.find? name = g.get? id := by
  rw [find?, hid, Option.bind_some]

theorem ext_get? (hindex : g.index = g'.index) (h : ∀ id, g.get? id = g'.get? id) : g = g' := by
  cases g
  cases g'
  cases hindex
  exact congrArg (Graph.mk · _) (List.ext_getElem? h)

theorem indexed_empty : empty.Indexed := by
  intro name id
  simp [lookup, names, empty]

namespace Indexed

theorem lookup_iff (h : g.Indexed) :
    g.lookup name = some id ↔ ∃ s, g.get? id = some s ∧ s.name = name := by
  rw [h name id, names_getElem?, Option.map_eq_some_iff]

theorem lookup_name (h : g.Indexed) (hs : g.get? id = some s) : g.lookup s.name = some id :=
  h.lookup_iff.2 ⟨s, hs, rfl⟩

theorem mem_names_iff (h : g.Indexed) : name ∈ g.names ↔ ∃ id, g.lookup name = some id := by
  rw [List.mem_iff_getElem?]
  exact exists_congr fun id => (h name id).symm

theorem lookup_eq_none_iff (h : g.Indexed) : g.lookup name = none ↔ name ∉ g.names := by
  rw [h.mem_names_iff, not_exists, Option.eq_none_iff_forall_ne_some]

theorem exists_find?_of_mem_names (h : g.Indexed) (hname : name ∈ g.names) :
    ∃ s, g.find? name = some s := by
  obtain ⟨id, hid⟩ := h.mem_names_iff.1 hname
  obtain ⟨s, hs, -⟩ := h.lookup_iff.1 hid
  exact ⟨s, (find?_eq_get? hid).trans hs⟩

theorem mem_names_of_find? (h : g.Indexed) (hs : g.find? name = some s) : name ∈ g.names := by
  obtain ⟨id, hid, -⟩ := Option.bind_eq_some_iff.1 hs
  exact h.mem_names_iff.2 ⟨id, hid⟩

theorem mem_of_find? (h : g.Indexed) (hs : g.find? name = some s) :
    s ∈ g.structs ∧ s.name = name := by
  obtain ⟨id, hid, hget⟩ := Option.bind_eq_some_iff.1 hs
  obtain ⟨s', hs', hname⟩ := h.lookup_iff.1 hid
  rw [hget] at hs'
  cases hs'
  exact ⟨List.mem_of_getElem? hget, hname⟩

/-- Every struct has a name of its own. -/
theorem nodup_names (h : g.Indexed) : g.names.Nodup := by
  refine List.pairwise_iff_getElem.2 fun i j hi hj hlt heq => ?_
  have hlookup := (h _ i).2 (List.getElem?_eq_getElem hi)
  rw [heq, (h _ j).2 (List.getElem?_eq_getElem hj)] at hlookup
  exact Nat.ne_of_gt hlt (Option.some.inj hlookup)

theorem lookup_lt (h : g.Indexed) (hid : g.lookup name = some id) : id < g.size := by
  obtain ⟨s, hs, -⟩ := h.lookup_iff.1 hid
  exact get?_eq_some_iff_lt.1 ⟨s, hs⟩

/-- The structs determine the index. -/
theorem eq_of_structs_eq (h : g.Indexed) (h' : g'.Indexed) (hs : g.structs = g'.structs) :
    g = g' := by
  have hindex : g.index = g'.index := by
    refine Std.ExtTreeMap.ext_getElem? fun name => Option.ext fun id => ?_
    change g.lookup name = some id ↔ g'.lookup name = some id
    rw [h name id, h' name id, names, names, hs]
  cases g
  cases g'
  cases hs
  cases hindex
  rfl

end Indexed

/-! ## Adding a struct -/

theorem insert_of_lookup_eq_some (h : g.lookup s.name = some id) : g.insert s = (id, g) := by
  rw [insert, h]

theorem insert_of_lookup_eq_none (h : g.lookup s.name = none) :
    g.insert s = (g.size, ⟨g.structs ++ [s], g.index.insert s.name g.size⟩) := by
  rw [insert, h]

theorem lookup_insert (h : g.lookup s.name = none) :
    (g.insert s).2.lookup name = if name = s.name then some g.size else g.lookup name := by
  rw [insert_of_lookup_eq_none h, lookup, Std.ExtTreeMap.getElem?_insert, lookup]
  by_cases hname : name = s.name
  · subst hname
    simp
  · rw [if_neg hname, if_neg fun h => hname (Std.LawfulEqCmp.eq_of_compare h).symm]

theorem names_insert (h : g.lookup s.name = none) :
    (g.insert s).2.names = g.names ++ [s.name] := by
  rw [insert_of_lookup_eq_none h, names, List.map_append]
  rfl

theorem Indexed.insert (hg : g.Indexed) (s : Struct) : (g.insert s).2.Indexed := by
  cases h : g.lookup s.name with
  | some id => rwa [insert_of_lookup_eq_some h]
  | none =>
      intro name id
      have hfresh : s.name ∉ g.names := hg.lookup_eq_none_iff.1 h
      rw [lookup_insert h, names_insert h, List.getElem?_append]
      have hlen : g.names.length = g.size := List.length_map _
      split
      · rename_i hname
        subst hname
        split
        · rename_i hlt
          constructor
          · intro he
            rw [hlen, ← Option.some.inj he] at hlt
            exact absurd hlt (Nat.lt_irrefl _)
          · intro he
            exact absurd (List.mem_of_getElem? he) hfresh
        · rename_i hlt
          rw [List.getElem?_singleton]
          constructor
          · intro he
            rw [← Option.some.inj he, hlen, Nat.sub_self, if_pos rfl]
          · intro he
            split at he
            · congr 1
              omega
            · cases he
      · rename_i hname
        split
        · exact hg name id
        · rename_i hlt
          constructor
          · intro he
            exact absurd (hlen ▸ hg.lookup_lt he) hlt
          · intro he
            rw [List.getElem?_singleton] at he
            split at he
            · exact absurd (Option.some.inj he).symm hname
            · cases he

/-- The other names keep their structs. -/
theorem Indexed.find?_insert (hg : g.Indexed) (h : g.lookup s.name = none) :
    (g.insert s).2.find? name = if name = s.name then some s else g.find? name := by
  have hstructs : (g.insert s).2.structs = g.structs ++ [s] := by rw [insert_of_lookup_eq_none h]
  rw [find?, lookup_insert h]
  split
  · rw [Option.bind_some, get?, hstructs, size, List.getElem?_concat_length]
  · rw [find?]
    refine Option.bind_congr fun id hid => ?_
    rw [get?, get?, hstructs, List.getElem?_append_left (hg.lookup_lt hid)]

/-! ## Changing a struct -/

@[simp] theorem lookup_modify (g : Graph) (id : StructId) (f : Struct → Struct) (name : String) :
    (g.modify id f).lookup name = g.lookup name := rfl

theorem get?_modify (g : Graph) (id id' : StructId) (f : Struct → Struct) :
    (g.modify id f).get? id' = (g.get? id').map fun s => if id = id' then f s else s := by
  rw [get?, modify, List.getElem?_modify, get?]
  split
  · rfl
  · simp

/-- What `f` leaves alone is left alone throughout. -/
theorem map_structs_modify {α : Type} (p : Struct → α) (g : Graph) (id : StructId)
    (f : Struct → Struct) (hf : ∀ s, p (f s) = p s) :
    (g.modify id f).structs.map p = g.structs.map p := by
  refine List.ext_getElem? fun i => ?_
  have h := get?_modify g id i f
  rw [get?, get?] at h
  rw [List.getElem?_map, List.getElem?_map, h, Option.map_map]
  congr 1
  funext s
  change p (if id = i then f s else s) = p s
  split
  · exact hf s
  · rfl

theorem names_modify (g : Graph) (id : StructId) {f : Struct → Struct}
    (hf : ∀ s, (f s).name = s.name) : (g.modify id f).names = g.names :=
  map_structs_modify Struct.name g id f hf

theorem Indexed.modify (hg : g.Indexed) (id : StructId) {f : Struct → Struct}
    (hf : ∀ s, (f s).name = s.name) : (g.modify id f).Indexed := by
  intro name id'
  rw [lookup_modify, names_modify g id hf]
  exact hg name id'

/-- The other names keep their structs. -/
theorem Indexed.find?_modify (hg : g.Indexed) (hid : g.lookup name = some id)
    (f : Struct → Struct) :
    (g.modify id f).find? other =
      if other = name then (g.find? other).map f else g.find? other := by
  rw [find?, lookup_modify, find?]
  cases hother : g.lookup other with
  | none => split <;> rfl
  | some id' =>
      rw [Option.bind_some, Option.bind_some, get?_modify]
      by_cases hname : other = name
      · subst hname
        rw [hother] at hid
        simp [Option.some.inj hid]
      · have hne : id ≠ id' := fun h => hname <| by
          have h' := (hg _ _).1 (h ▸ hid)
          rw [(hg _ _).1 hother] at h'
          exact Option.some.inj h'
        simp [hname, hne]

/-! ## Cutting structs off -/

theorem getElem?_foldl_erase (dropped : List Struct) (index : Std.ExtTreeMap String StructId) :
    (dropped.foldl (fun index s => index.erase s.name) index)[name]? =
      if name ∈ dropped.map Struct.name then none else index[name]? := by
  induction dropped generalizing index with
  | nil => simp
  | cons s rest ih =>
      rw [List.foldl_cons, ih, Std.ExtTreeMap.getElem?_erase]
      by_cases hname : name = s.name
      · simp [hname, Std.ReflCmp.compare_self]
      · have hne : compare s.name name ≠ .eq := fun h =>
          hname (Std.LawfulEqCmp.eq_of_compare h).symm
        simp [hname, hne]

theorem lookup_truncate (g : Graph) (len : Nat) (name : String) :
    (g.truncate len).lookup name = if name ∈ g.names.drop len then none else g.lookup name := by
  rw [truncate, lookup, getElem?_foldl_erase, names, List.map_drop, lookup]

theorem names_truncate (g : Graph) (len : Nat) : (g.truncate len).names = g.names.take len :=
  List.map_take

/-- Nothing is cut off where there is nothing. -/
theorem truncate_of_size_le {len : Nat} (h : g.size ≤ len) : g.truncate len = g := by
  rw [truncate, List.take_of_length_le h, List.drop_of_length_le h, List.foldl_nil]

/-- The names that are cut off are those of the places behind the cut. -/
theorem Indexed.mem_drop_names_iff (hg : g.Indexed) (hid : g.lookup name = some id) (len : Nat) :
    name ∈ g.names.drop len ↔ len ≤ id := by
  rw [List.mem_iff_getElem?]
  constructor
  · rintro ⟨i, hi⟩
    rw [List.getElem?_drop, ← hg name (len + i), hid] at hi
    rw [Option.some.inj hi]
    exact Nat.le_add_right len i
  · intro hle
    refine ⟨id - len, ?_⟩
    rw [List.getElem?_drop, Nat.add_sub_cancel' hle]
    exact (hg name id).1 hid

/-- A cut forgets a name just when its place is behind the cut. -/
theorem Indexed.lookup_truncate_eq_filter (hg : g.Indexed) (len : Nat) (name : String) :
    (g.truncate len).lookup name = (g.lookup name).filter (· < len) := by
  rw [lookup_truncate]
  cases hid : g.lookup name with
  | none => exact ite_self none
  | some id =>
      rw [Option.filter_some]
      by_cases hlt : id < len
      · rw [if_neg fun hmem => Nat.not_lt.2 ((hg.mem_drop_names_iff hid len).1 hmem) hlt,
          if_pos (decide_eq_true hlt)]
      · rw [if_pos ((hg.mem_drop_names_iff hid len).2 (Nat.le_of_not_lt hlt)),
          if_neg fun h => hlt (of_decide_eq_true h)]

theorem Indexed.truncate (hg : g.Indexed) (len : Nat) : (g.truncate len).Indexed := by
  intro name id
  rw [hg.lookup_truncate_eq_filter, Option.filter_eq_some_iff, hg name id, names_truncate,
    List.getElem?_take]
  split
  · rename_i hlt
    exact and_iff_left (decide_eq_true hlt)
  · rename_i hlt
    exact iff_of_false (fun h => hlt (of_decide_eq_true h.2)) nofun

/-- Cutting off what was added since gives the earlier graph, index included. -/
theorem Indexed.truncate_eq (hg : g.Indexed) (hg' : g'.Indexed)
    (hpre : g.structs <+: g'.structs) : g'.truncate g.size = g := by
  refine (hg'.truncate g.size).eq_of_structs_eq hg ?_
  obtain ⟨added, hadded⟩ := hpre
  rw [Graph.truncate, ← hadded]
  exact List.take_left

/-! ## Graphs that grow -/

/-- Structs have been added at the end: every place and every name of the earlier graph leads to the
same struct as before. -/
structure Extends (g g' : Graph) : Prop where
  structs : g.structs <+: g'.structs
  get? : ∀ id s, g.get? id = some s → g'.get? id = some s
  lookup : ∀ name id, g.lookup name = some id → g'.lookup name = some id

theorem get?_of_prefix (h : g.structs <+: g'.structs) (hs : g.get? id = some s) :
    g'.get? id = some s := by
  obtain ⟨added, hadded⟩ := h
  rw [Graph.get?, ← hadded, List.getElem?_append_left (get?_eq_some_iff_lt.1 ⟨s, hs⟩)]
  exact hs

theorem names_subset_of_prefix (h : g.structs <+: g'.structs) : g.names ⊆ g'.names :=
  (h.map Struct.name).subset

theorem prefix_insert (g : Graph) (s : Struct) : g.structs <+: (g.insert s).2.structs := by
  cases h : g.lookup s.name with
  | some id =>
      have hsame : (g.insert s).2 = g := by rw [insert_of_lookup_eq_some h]
      exact hsame.symm ▸ List.prefix_rfl
  | none =>
      rw [insert_of_lookup_eq_none h]
      exact List.prefix_append ..

/-- A change behind the structs of `g` leaves them in front. -/
theorem prefix_modify (h : g.structs <+: g'.structs) (hid : g.size ≤ id) (f : Struct → Struct) :
    g.structs <+: (g'.modify id f).structs := by
  rw [List.prefix_iff_eq_take] at h ⊢
  rw [Graph.modify, List.take_modify, ← h, List.modify_eq_self hid]

theorem Indexed.extends (hg : g.Indexed) (hg' : g'.Indexed) (h : g.structs <+: g'.structs) :
    g.Extends g' where
  structs := h
  get? _ _ hs := get?_of_prefix h hs
  lookup name id hid := by
    obtain ⟨s, hs, hname⟩ := hg.lookup_iff.1 hid
    exact hg'.lookup_iff.2 ⟨s, get?_of_prefix h hs, hname⟩

end RecordSchema.Schema.Graph
