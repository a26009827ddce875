import RecordSchema.Proofs.Schema.Links

/-!
# Annotated graphs

What is put on the structs of a graph once they are there: descriptions, reasons to leave something
out and, on fields, paths.  Annotations are erased to tell what they leave alone: names, links and
all that is shown.
-/

namespace RecordSchema.Schema

/-- The field without descriptions and without a reason to leave it out. -/
def Field.unnoted (f : Field) : Field :=
  { f with description := "", markdownDescription := "", exclusion := none }

/-- The field without paths. -/
def Field.unplaced (f : Field) : Field := { f with path := "", xmlPath := "" }

/-- The field without any annotation. -/
def Field.core (f : Field) : Field := f.unnoted.unplaced

/-- What is put on a field. -/
structure Annotations where
  path : String := ""
  xmlPath : String := ""
  description : String := ""
  markdownDescription : String := ""
  exclusion : Option String := none

def Field.annotations (f : Field) : Annotations :=
  ⟨f.path, f.xmlPath, f.description, f.markdownDescription, f.exclusion⟩

/-- The struct without descriptions and without a reason to leave it out. -/
def Struct.erased (erase : Field → Field) (s : Struct) : Struct :=
  { s with
    fields := s.fields.map erase, exclusion := none, description := "", markdownDescription := "" }

theorem Struct.erased_core (s : Struct) :
    s.erased .core = (s.erased .unnoted).erased .unplaced := by
  simp [erased, List.map_map, Function.comp_def, Field.core]

def Struct.atTop (s : Struct) : Struct := { s with isTopLevel := true }

namespace Graph

/-- The structs are the same up to annotations, and are found in the same way. -/
structure SameUpTo (erase : Field → Field) (g g' : Graph) : Prop where
  index : g'.index = g.index
  structs : g'.structs.map (Struct.erased erase) = g.structs.map (Struct.erased erase)

namespace SameUpTo

variable {erase : Field → Field} {g g' g'' : Graph} {id : StructId} {s : Struct} {f : Field}

theorem refl (g : Graph) : SameUpTo erase g g := ⟨rfl, rfl⟩

theorem trans (h : SameUpTo erase g g') (h' : SameUpTo erase g' g'') : SameUpTo erase g g'' :=
  ⟨h'.index.trans h.index, h'.structs.trans h.structs⟩

theorem modify {change : Struct → Struct}
    (hchange : ∀ s, (change s).erased erase = s.erased erase) (g : Graph) (id : StructId) :
    SameUpTo erase g (g.modify id change) :=
  ⟨rfl, map_structs_modify _ g id change hchange⟩

theorem foldl {β : Type} {step : Graph → β → Graph} (hstep : ∀ g b, SameUpTo erase g (step g b))
    (bs : List β) (g : Graph) : SameUpTo erase g (bs.foldl step g) := by
  induction bs generalizing g with
  | nil => exact refl g
  | cons b rest ih => exact (hstep g b).trans (ih (step g b))

/-- Annotations leave alone what does not depend on the erased. -/
theorem map_structs {α : Type} (h : SameUpTo erase g g') (p : Struct → α)
    (hp : ∀ s s' : Struct, s'.erased erase = s.erased erase → p s' = p s) :
    g'.structs.map p = g.structs.map p := by
  refine List.ext_getElem? fun i => ?_
  have hi := congrArg (·[i]?) h.structs
  simp only [List.getElem?_map] at hi ⊢
  cases hs : g.structs[i]? with
  | none =>
      rw [hs] at hi
      rw [Option.map_eq_none_iff.1 hi]
  | some s =>
      rw [hs] at hi
      obtain ⟨s', hs', heq⟩ := Option.map_eq_some_iff.1 hi
      rw [hs']
      exact congrArg some (hp s s' heq)

theorem map_get? {α : Type} (h : SameUpTo erase g g') (p : Struct → α)
    (hp : ∀ s s' : Struct, s'.erased erase = s.erased erase → p s' = p s) (id : StructId) :
    (g'.get? id).map p = (g.get? id).map p := by
  have hid := congrArg (·[id]?) (h.map_structs p hp)
  simp only [List.getElem?_map] at hid
  exact hid

theorem core_of_unnoted (h : SameUpTo .unnoted g g') : SameUpTo .core g g' where
  index := h.index
  structs := h.map_structs _ fun s s' heq => by rw [Struct.erased_core, heq, ← Struct.erased_core]

theorem size_eq (h : SameUpTo erase g g') : g'.size = g.size := by
  have hlength := congrArg List.length h.structs
  rwa [List.length_map, List.length_map] at hlength

theorem lookup_eq (h : SameUpTo erase g g') (name : String) : g'.lookup name = g.lookup name := by
  rw [lookup, h.index, lookup]

theorem indexed (h : SameUpTo erase g g') (hg : g.Indexed) : g'.Indexed := by
  intro name id
  have hnames : g'.names = g.names :=
    h.map_structs Struct.name fun _ _ heq => (congrArg Struct.name heq :)
  rw [h.lookup_eq, hnames]
  exact hg name id

theorem exists_get? (h : SameUpTo erase g g') (hs : g'.get? id = some s) :
    ∃ t, g.get? id = some t ∧ s.erased erase = t.erased erase := by
  have hid := congrArg (·[id]?) h.structs
  simp only [List.getElem?_map] at hid
  rw [get?] at hs
  rw [hs, Option.map_some] at hid
  obtain ⟨t, ht, heq⟩ := Option.map_eq_some_iff.1 hid.symm
  exact ⟨t, ht, heq.symm⟩

theorem map_fieldsAt (h : SameUpTo erase g g') (id : StructId) :
    (g'.fieldsAt id).map erase = (g.fieldsAt id).map erase := by
  have hid := congrArg (·[id]?) h.structs
  simp only [List.getElem?_map] at hid
  have hfields (g : Graph) : (g.fieldsAt id).map erase =
      (g.structs[id]?.map (Struct.erased erase)).elim [] Struct.fields := by
    rw [fieldsAt, get?]
    cases g.structs[id]? <;> rfl
  rw [hfields, hfields, hid]

/-- What is told of fields without looking at the erased is told of the annotated ones, too. -/
theorem filterMap_fieldsAt {α : Type} (h : SameUpTo erase g g') (p : Field → Option α)
    (hp : ∀ f, p (erase f) = p f) (id : StructId) :
    (g'.fieldsAt id).filterMap p = (g.fieldsAt id).filterMap p := by
  have herase (fields : List Field) : fields.filterMap p = (fields.map erase).filterMap p := by
    have hcomp : p ∘ erase = p := funext hp
    rw [List.filterMap_map, hcomp]
  rw [herase, h.map_fieldsAt, ← herase]

theorem exists_field (h : SameUpTo erase g g') (hf : f ∈ g'.fieldsAt id) :
    ∃ e ∈ g.fieldsAt id, erase e = erase f := by
  have hmem := List.mem_map_of_mem (f := erase) hf
  rw [h.map_fieldsAt] at hmem
  exact List.mem_map.1 hmem

theorem linkOrder {order : List StructId} (h : SameUpTo .core g g') (horder : g.LinkOrder order) :
    g'.LinkOrder order := by
  refine horder.of_linksTo h.size_eq ?_
  rintro s t ⟨f, hf, ht⟩
  obtain ⟨e, he, heq⟩ := h.exists_field hf
  have htarget : e.target? = f.target? := (congrArg Field.target? heq :)
  exact ⟨e, he, htarget.trans ht⟩

end SameUpTo

/-! ## Marks -/

/-- Marks the struct at a place. -/
def markTop (g : Graph) (id : StructId) : Graph := g.modify id Struct.atTop

variable {g : Graph} {id t : StructId} {s : Struct}

@[simp] theorem size_markTop (g : Graph) (id : StructId) : (g.markTop id).size = g.size :=
  size_modify ..

theorem Indexed.markTop (h : g.Indexed) (id : StructId) : (g.markTop id).Indexed :=
  h.modify id fun _ => rfl

theorem get?_foldl_markTop (g : Graph) (ids : List StructId) (t : StructId) :
    (ids.foldl markTop g).get? t = (g.get? t).map fun s => if t ∈ ids then s.atTop else s := by
  induction ids generalizing g with
  | nil => simp
  | cons id rest ih =>
      rw [List.foldl_cons, ih, markTop, get?_modify, Option.map_map]
      congr 1
      funext s
      by_cases hid : t = id
      · subst hid
        simp [Struct.atTop]
      · simp [hid, Ne.symm hid]

/-- What does not depend on marks is as it was. -/
theorem map_get?_foldl_markTop {α : Type} (p : Struct → α) (hp : ∀ s, p s.atTop = p s) (g : Graph)
    (ids : List StructId) (t : StructId) :
    ((ids.foldl markTop g).get? t).map p = (g.get? t).map p := by
  rw [get?_foldl_markTop, Option.map_map]
  congr 1
  funext s
  change p (if t ∈ ids then s.atTop else s) = p s
  split
  · exact hp s
  · rfl

theorem map_get?_markTop {α : Type} (p : Struct → α) (hp : ∀ s, p s.atTop = p s) (g : Graph)
    (id t : StructId) : ((g.markTop id).get? t).map p = (g.get? t).map p :=
  map_get?_foldl_markTop p hp g [id] t

theorem fieldsAt_foldl_markTop (g : Graph) (ids : List StructId) (t : StructId) :
    (ids.foldl markTop g).fieldsAt t = g.fieldsAt t := by
  have hfields (g : Graph) : g.fieldsAt t = ((g.get? t).map Struct.fields).getD [] := by
    rw [fieldsAt]
    cases g.get? t <;> rfl
  rw [hfields, hfields, map_get?_foldl_markTop Struct.fields fun _ => rfl]

@[simp] theorem fieldsAt_markTop (g : Graph) (id t : StructId) :
    (g.markTop id).fieldsAt t = g.fieldsAt t := fieldsAt_foldl_markTop g [id] t

theorem lookup_foldl_markTop (g : Graph) (ids : List StructId) (name : String) :
    (ids.foldl markTop g).lookup name = g.lookup name := by
  induction ids generalizing g with
  | nil => rfl
  | cons id rest ih => exact ih (g.markTop id)

theorem insert_markTop (hid : id < g.size) (hfresh : g.lookup s.name = none) :
    ((g.markTop id).insert s).2 = (g.insert s).2.markTop id := by
  have hstructs : g.structs.modify id Struct.atTop ++ [s] =
      (g.structs ++ [s]).modify id Struct.atTop := by
    refine List.ext_getElem? fun i => ?_
    rw [List.getElem?_modify, List.getElem?_append, List.getElem?_append, List.length_modify,
      List.getElem?_modify]
    split
    · rfl
    · rename_i hi
      have hne : id ≠ i := fun h => hi (h ▸ hid)
      simp [hne]
  rw [insert_of_lookup_eq_none hfresh, insert_of_lookup_eq_none (g := g.markTop id) hfresh,
    size_markTop, markTop, markTop, modify, modify, hstructs]

theorem truncate_markTop (g : Graph) (id : StructId) (len : Nat) :
    (g.markTop id).truncate len = (g.truncate len).markTop id := by
  -- the names that are forgotten do not depend on marks
  have hindex (structs : List Struct) :
      structs.foldl (fun index s => index.erase s.name) g.index =
        (structs.map Struct.name).foldl (fun index name => index.erase name) g.index :=
    List.foldl_map.symm
  have hnames : (g.markTop id).structs.map Struct.name = g.structs.map Struct.name :=
    names_modify g id fun _ => rfl
  refine congrArg₂ Graph.mk (List.take_modify ..) ?_
  change List.foldl _ g.index ((g.markTop id).structs.drop len) =
    List.foldl _ g.index (g.structs.drop len)
  rw [hindex, hindex, List.map_drop, List.map_drop, hnames]

theorem modify_fields_markTop (g : Graph) (id t : StructId) (fields : List Field) :
    ((g.markTop id).modify t fun s => { s with fields }) =
      (g.modify t fun s => { s with fields }).markTop id := by
  rw [markTop, markTop, modify, modify, modify, modify]
  by_cases h : id = t
  · subst h
    rw [List.modify_modify_eq, List.modify_modify_eq]
    rfl
  · rw [List.modify_modify_ne _ _ _ h]

theorem foldl_markTop_induction {p : Graph → Prop} (hp : ∀ g id, p g → p (g.markTop id))
    (h : p g) (ids : List StructId) : p (ids.foldl markTop g) := by
  induction ids generalizing g with
  | nil => exact h
  | cons id rest ih => exact ih (hp g id h)

theorem LinkOrder.foldl_markTop {order : List StructId} (h : g.LinkOrder order)
    (ids : List StructId) : (ids.foldl markTop g).LinkOrder order := by
  refine h.of_linksTo ?_ fun s t hlink => ?_
  · exact foldl_markTop_induction (fun g id h => (g.size_markTop id).trans h) rfl ids
  · rwa [LinksTo, fieldsAt_foldl_markTop] at hlink

end Graph

end RecordSchema.Schema
