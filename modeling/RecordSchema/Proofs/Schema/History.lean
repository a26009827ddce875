import RecordSchema.Proofs.Schema.Index

/-!
# Histories of a graph

The structs of a graph and its index are written apart: a new struct goes into both, a cut erases
the names of what goes one by one, and a struct that is rewritten leaves the index alone.  Whatever
the order of such changes, the structs are those of a plain list that is searched for names, the
index leads to each of them by its name and nowhere else, and a place that a cut has freed goes to
the next struct whose name is not known, a forgotten one as well as any other.
-/

namespace RecordSchema.Schema

/-- A change of a graph.  A struct that is rewritten keeps its name. -/
inductive Change where
  | insert (s : Struct)
  | truncate (len : Nat)
  | modify (id : StructId) (f : Struct → Struct) (name_eq : ∀ s, (f s).name = s.name)

/-- A change of structs without an index: a name is looked for among the structs themselves. -/
def Change.onStructs (structs : List Struct) : Change → List Struct
  | .insert s => if s.name ∈ structs.map Struct.name then structs else structs ++ [s]
  | .truncate len => structs.take len
  | .modify id f _ => structs.modify id f

namespace Graph

variable {g : Graph} {s : Struct} {name : String} {id : StructId}

def change (g : Graph) : Change → Graph
  | .insert s => (g.insert s).2
  | .truncate len => g.truncate len
  | .modify id f _ => g.modify id f

/-- The graph after a history of changes. -/
def replay (g : Graph) (changes : List Change) : Graph := changes.foldl change g

/-! ## What a change keeps -/

namespace Indexed

theorem change (hg : g.Indexed) (c : Change) : (g.change c).Indexed := by
  cases c with
  | insert s => exact hg.insert s
  | truncate len => exact hg.truncate len
  | modify id f name_eq => exact hg.modify id name_eq

/-- A change does to the structs what it does to structs without an index. -/
theorem structs_change (hg : g.Indexed) (c : Change) :
    (g.change c).structs = c.onStructs g.structs := by
  cases c with
  | insert s =>
      -- the index knows the name just when a search through the structs finds it
      rw [Graph.change, Change.onStructs]
      split
      · rename_i hmem
        obtain ⟨id, hid⟩ := hg.mem_names_iff.1 hmem
        rw [insert_of_lookup_eq_some hid]
      · rename_i hmem
        rw [insert_of_lookup_eq_none (hg.lookup_eq_none_iff.2 hmem)]
  | truncate len => rfl
  | modify id f name_eq => rfl

/-- A name keeps its place in every change but a cut in front of it. -/
theorem lookup_change (hg : g.Indexed) (hid : g.lookup name = some id) (c : Change)
    (hkept : ∀ len, c = .truncate len → id < len) : (g.change c).lookup name = some id := by
  cases c with
  | insert s => exact (hg.extends (hg.insert s) (prefix_insert g s)).lookup name id hid
  | truncate len =>
      rw [Graph.change, hg.lookup_truncate_eq_filter, hid, Option.filter_some,
        if_pos (decide_eq_true (hkept len rfl))]
  | modify id' f name_eq => exact hid

/-! ## What a history keeps -/

theorem replay (hg : g.Indexed) (changes : List Change) : (g.replay changes).Indexed := by
  induction changes generalizing g with
  | nil => exact hg
  | cons c rest ih => exact ih (hg.change c)

theorem structs_replay (hg : g.Indexed) (changes : List Change) :
    (g.replay changes).structs = changes.foldl Change.onStructs g.structs := by
  induction changes generalizing g with
  | nil => rfl
  | cons c rest ih =>
      rw [List.foldl_cons, ← hg.structs_change c]
      exact ih (hg.change c)

theorem lookup_replay (hg : g.Indexed) (hid : g.lookup name = some id) (changes : List Change)
    (hkept : ∀ len, Change.truncate len ∈ changes → id < len) :
    (g.replay changes).lookup name = some id := by
  induction changes generalizing g with
  | nil => exact hid
  | cons c rest ih =>
      have hstep : (g.change c).lookup name = some id :=
        hg.lookup_change hid c fun len hc => hkept len (hc ▸ List.mem_cons_self)
      exact ih (hg.change c) hstep fun len hlen => hkept len (List.mem_cons_of_mem c hlen)

end Indexed

/-! ## The agreement of structs and index -/

/-- What adding `s` to `g` gives where its name is new: a place that was free, which now holds `s`
and to which its name leads, and nothing else. -/
structure Adds (g : Graph) (s : Struct) (out : StructId × Graph) : Prop where
  id_eq : out.1 = g.size
  structs : out.2.structs = g.structs ++ [s]
  fresh : g.get? out.1 = none
  valid : out.2.get? out.1 = some s
  lookup : ∀ name, out.2.lookup name = if name = s.name then some out.1 else g.lookup name

/-- What cutting `g` to `len` structs gives: the places in front of the cut are kept with their
names, all other places and names are forgotten. -/
structure CutsTo (g : Graph) (len : Nat) (g' : Graph) : Prop where
  structs : g'.structs = g.structs.take len
  lookup : ∀ name, g'.lookup name = (g.lookup name).filter (· < len)
  eq_self : g.size ≤ len → g' = g

/-- Structs and index agree, and the operations do on both what they say. -/
structure Agrees (g : Graph) : Prop where
  lookup : ∀ name id, g.lookup name = some id ↔ ∃ s, g.get? id = some s ∧ s.name = name
  nodup : g.names.Nodup
  known : ∀ s id, g.lookup s.name = some id → g.insert s = (id, g)
  new : ∀ s, g.lookup s.name = none → g.Adds s (g.insert s)
  cut : ∀ len, g.CutsTo len (g.truncate len)
  /-- A name that a cut forgets can be added again. -/
  again : ∀ len name id, g.lookup name = some id → len ≤ id →
    (g.truncate len).lookup name = none ∧
      ∀ s, s.name = name → (g.truncate len).Adds s ((g.truncate len).insert s)

theorem adds_insert (h : g.lookup s.name = none) : g.Adds s (g.insert s) := by
  have hout := insert_of_lookup_eq_none h
  have hid : (g.insert s).1 = g.size := congrArg Prod.fst hout
  have hstructs : (g.insert s).2.structs = g.structs ++ [s] := congrArg (·.2.structs) hout
  refine ⟨hid, hstructs, ?_, ?_, fun name => ?_⟩
  · rw [hid, get?, size, List.getElem?_eq_none (Nat.le_refl _)]
  · rw [hid, get?, hstructs, size, List.getElem?_concat_length]
  · rw [lookup_insert h, hid]

theorem Indexed.cutsTo_truncate (hg : g.Indexed) (len : Nat) : g.CutsTo len (g.truncate len) where
  structs := rfl
  lookup := hg.lookup_truncate_eq_filter len
  eq_self := truncate_of_size_le

theorem Indexed.lookup_truncate_of_le (hg : g.Indexed) (hid : g.lookup name = some id) {len : Nat}
    (hle : len ≤ id) : (g.truncate len).lookup name = none := by
  rw [lookup_truncate, if_pos ((hg.mem_drop_names_iff hid len).2 hle)]

theorem Indexed.agrees (hg : g.Indexed) : g.Agrees where
  lookup _ _ := hg.lookup_iff
  nodup := hg.nodup_names
  known _ _ := insert_of_lookup_eq_some
  new _ := adds_insert
  cut := hg.cutsTo_truncate
  again len name id hid hle := by
    have hforgotten := hg.lookup_truncate_of_le hid hle
    refine ⟨hforgotten, ?_⟩
    rintro s rfl
    exact adds_insert hforgotten

/-- After every history of changes the structs are those of a plain list that is searched for names,
structs and index agree, and what is known then keeps its place up to a cut in front of it. -/
theorem replay_agrees (changes : List Change) :
    let g := empty.replay changes
    g.structs = changes.foldl Change.onStructs [] ∧ g.Agrees ∧
      ∀ later name id, g.lookup name = some id → (∀ len, Change.truncate len ∈ later → id < len) →
        (g.replay later).lookup name = some id := by
  intro g
  have hg : g.Indexed := indexed_empty.replay changes
  exact ⟨indexed_empty.structs_replay changes, hg.agrees,
    fun later _ _ hid hkept => hg.lookup_replay hid later hkept⟩

/-- A name that comes twice, and a cut behind the first struct: the last struct comes back in the
place of the second one, whose name leads nowhere. -/
theorem replay_agrees_disk :
    let named name : Struct := { name, package := "libvirt" }
    let changes : List Change :=
      [.insert (named "Domain"), .insert (named "DomainDeviceList"), .insert (named "Domain"),
       .insert (named "DomainDisk")]
    let g := empty.replay changes
    let g' := g.replay [.truncate 1, .insert (named "DomainDisk"), .truncate 5]
    g.names = ["Domain", "DomainDeviceList", "DomainDisk"] ∧
      (g.truncate 1).lookup "DomainDisk" = none ∧
      (g.truncate 1).Adds (named "DomainDisk") ((g.truncate 1).insert (named "DomainDisk")) ∧
      g'.lookup "Domain" = some 0 ∧ g'.lookup "DomainDeviceList" = none ∧
      g'.lookup "DomainDisk" = some 1 := by
  intro named changes g g'
  obtain ⟨hstructs, hagrees, hkept⟩ := replay_agrees changes
  have hnames : g.names = ["Domain", "DomainDeviceList", "DomainDisk"] :=
    (congrArg (List.map Struct.name) hstructs).trans (by decide)
  have hdomain : g.lookup "Domain" = some 0 :=
    (hagrees.lookup "Domain" 0).2 ⟨named "Domain", by decide +kernel, rfl⟩
  have hdisk : g.lookup "DomainDisk" = some 2 :=
    (hagrees.lookup "DomainDisk" 2).2 ⟨named "DomainDisk", by decide +kernel, rfl⟩
  obtain ⟨hforgotten, hadds⟩ := hagrees.again 1 "DomainDisk" 2 hdisk (by decide)
  refine ⟨hnames, hforgotten, hadds (named "DomainDisk") rfl, ?_, by decide +kernel,
    by decide +kernel⟩
  refine hkept _ "Domain" 0 hdomain fun len hlen => ?_
  simp only [List.mem_cons, Change.truncate.injEq, reduceCtorEq, List.not_mem_nil, or_false,
    false_or] at hlen
  rcases hlen with rfl | rfl
  · exact Nat.one_pos
  · exact Nat.succ_pos 4

end Graph

end RecordSchema.Schema
