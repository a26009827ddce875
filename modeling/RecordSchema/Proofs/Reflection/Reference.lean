import Mathlib.Data.List.Chain
import Mathlib.Data.List.TakeWhile
import RecordSchema.Proofs.Catalog.Reference
import RecordSchema.Proofs.Reflection.Ancestry

/-!
# References of bodies

The steps of a body refer to just the records that the fields mention.  So what leads to a record in
a graph reaches it in the catalog, and the names under analysis with a record are a way of mentions
down to it.
-/

namespace RecordSchema

theorem TypeExpr.reference?_shape_eq_some_iff {ty : TypeExpr} {name : String} :
    ty.shape.reference? = some name ↔ ty.Names name := by
  rw [shape, Names, recordName?]
  cases ty.stripOptional with
  | list element =>
      simp only [reduceCtorEq, false_or, list.injEq, exists_eq_left']
      rw [recordName?]
      cases element.stripOptional <;> simp [Shape.reference?]
  | _ => simp [Shape.reference?]

namespace Reflection

open Schema (Graph)

variable {fields : List FieldDecl} {f : FieldDecl} {step : BodyStep} {name : String}

/-! ## Steps of a declaration -/

theorem declSteps_eq (f : FieldDecl) :
    declSteps f =
      if f.exported then if f.embedded then embedSteps f.ty.display f.ty else fieldSteps f
      else [] := by
  cases f
  rw [declSteps]

theorem mem_bodySteps_iff : step ∈ bodySteps fields ↔ ∃ f ∈ fields, step ∈ declSteps f := by
  induction fields with
  | nil => simp [bodySteps]
  | cons f rest ih => rw [bodySteps, List.mem_append, ih, List.exists_mem_cons_iff]

theorem fieldSteps_of_not_serialized (h : f.isSerialized = false) (hexported : f.exported = true) :
    fieldSteps f = [] := by
  rw [fieldSteps]
  cases htag : f.tag with
  | none => rfl
  | some tag =>
      simp only [FieldDecl.isSerialized, hexported, htag, Option.any_some, Bool.true_and,
        bne_eq_false_iff_eq] at h
      exact if_pos h

theorem fieldSteps_of_anonymous (h : f.ty.shape = .anonymous) : fieldSteps f = [] := by
  rw [fieldSteps]
  cases f.tag with
  | none => rfl
  | some tag =>
      simp only [h]
      split <;> rfl

/-- A field that shows in documents has one step. -/
theorem fieldSteps_of_tag {tag : Tag} (htag : f.tag = some tag) (hnode : tag.node ≠ .ignored)
    (hshape : f.ty.shape ≠ .anonymous) :
    fieldSteps f = [{ item := .field f tag f.ty.shape }] := by
  rw [fieldSteps, htag]
  simp only [if_neg hnode]

theorem exists_tag_of_isSerialized (h : f.isSerialized = true) :
    f.exported = true ∧ ∃ tag, f.tag = some tag ∧ tag.node ≠ .ignored := by
  rw [FieldDecl.isSerialized, Bool.and_eq_true, Option.any_eq_true] at h
  obtain ⟨hexported, tag, htag, hnode⟩ := h
  exact ⟨hexported, tag, htag, by simpa using hnode⟩

/-- The steps of a field that is not embedded come from a field that shows in documents. -/
theorem of_mem_fieldSteps (hexported : f.exported = true) (hstep : step ∈ fieldSteps f) :
    f.isSerialized = true ∧
      ∃ tag, f.tag = some tag ∧ step = { item := .field f tag f.ty.shape } := by
  cases hserialized : f.isSerialized with
  | false =>
      rw [fieldSteps_of_not_serialized hserialized hexported] at hstep
      cases hstep
  | true =>
      obtain ⟨-, tag, htag, hnode⟩ := exists_tag_of_isSerialized hserialized
      by_cases hshape : f.ty.shape = .anonymous
      · rw [fieldSteps_of_anonymous hshape] at hstep
        cases hstep
      · rw [fieldSteps_of_tag htag hnode hshape] at hstep
        exact ⟨rfl, tag, htag, List.mem_singleton.1 hstep⟩

/-- Optional wrappers around an embedded type do not count. -/
theorem embedSteps_stripOptional (label : String) :
    ∀ ty : TypeExpr, embedSteps label ty = embedSteps label ty.stripOptional
  | .optional inner => by
      rw [embedSteps, TypeExpr.stripOptional]
      exact embedSteps_stripOptional label inner
  | .scalar _ | .named _ | .inline _ | .list _ => rfl

theorem embedSteps_of_recordName? {label e : String} {ty : TypeExpr}
    (h : ty.recordName? = some e) : embedSteps label ty = [{ item := .embed e }] := by
  rw [embedSteps_stripOptional, TypeExpr.recordName?_eq_some_iff.1 h, embedSteps]

theorem embedSteps_of_inline {label : String} {ty : TypeExpr} {r : RecordDecl}
    (h : ty.stripOptional = .inline r) :
    embedSteps label ty = (bodySteps r.fields).map (.inside label) := by
  cases r
  rw [embedSteps_stripOptional, h, embedSteps, recordSteps]

/-- An embedded field has the step of the record it embeds, or those of a record in place. -/
theorem of_mem_embedSteps {label : String} {ty : TypeExpr} (hstep : step ∈ embedSteps label ty) :
    (∃ e, ty.recordName? = some e ∧ step = { item := .embed e }) ∨
      ∃ r, ty.stripOptional = .inline r ∧
        ∃ inner ∈ bodySteps r.fields, step = inner.inside label := by
  cases hty : ty.stripOptional with
  | named e =>
      have he := TypeExpr.recordName?_eq_some_iff.2 hty
      rw [embedSteps_of_recordName? he] at hstep
      exact .inl ⟨e, he, List.mem_singleton.1 hstep⟩
  | inline r =>
      rw [embedSteps_of_inline hty] at hstep
      obtain ⟨inner, hinner, rfl⟩ := List.mem_map.1 hstep
      exact .inr ⟨r, rfl, inner, hinner, rfl⟩
  | optional inner => exact absurd hty (ty.stripOptional_ne_optional inner)
  | scalar kind =>
      rw [embedSteps_stripOptional, hty] at hstep
      cases hstep
  | list element =>
      rw [embedSteps_stripOptional, hty] at hstep
      cases hstep

theorem mem_bodySteps_of_embedded (hf : f ∈ fields) (hexported : f.exported = true)
    (hembedded : f.embedded = true) (hstep : step ∈ embedSteps f.ty.display f.ty) :
    step ∈ bodySteps fields := by
  refine mem_bodySteps_iff.2 ⟨f, hf, ?_⟩
  rwa [declSteps_eq, if_pos hexported, if_pos hembedded]

/-- Every step of a body is for a field that shows in documents or for an embedded record, in the
body itself or in a body that is embedded in place. -/
@[elab_as_elim]
theorem bodySteps_induction
    {motive : (fields : List FieldDecl) → (step : BodyStep) → step ∈ bodySteps fields → Prop}
    (field : ∀ {fields f tag} (_ : f ∈ fields) (_ : f.isSerialized = true) (_ : f.embedded = false)
      (_ : f.tag = some tag) (hstep), motive fields { item := .field f tag f.ty.shape } hstep)
    (embed : ∀ {fields f e} (_ : f ∈ fields) (_ : f.exported = true) (_ : f.embedded = true)
      (_ : f.ty.recordName? = some e) (hstep), motive fields { item := .embed e } hstep)
    (inside : ∀ {fields f r step} (_ : f ∈ fields) (_ : f.exported = true) (_ : f.embedded = true)
      (_ : f.ty.stripOptional = .inline r) (hinner : step ∈ bodySteps r.fields)
      (_ : motive r.fields step hinner) (hstep), motive fields (step.inside f.ty.display) hstep)
    {fields : List FieldDecl} {step : BodyStep} (hstep : step ∈ bodySteps fields) :
    motive fields step hstep := by
  induction fields using FieldDecl.inline_induction generalizing step with
  | step fields ih =>
      obtain ⟨f, hf, hmem⟩ := mem_bodySteps_iff.1 hstep
      rw [declSteps_eq] at hmem
      split at hmem
      · rename_i hexported
        split at hmem
        · rename_i hembedded
          rcases of_mem_embedSteps hmem with ⟨e, he, rfl⟩ | ⟨r, hr, inner, hinner, rfl⟩
          · exact embed hf hexported hembedded he hstep
          · exact inside hf hexported hembedded hr hinner (ih f hf r hr hinner) hstep
        · rename_i hplain
          obtain ⟨hserialized, tag, htag, rfl⟩ := of_mem_fieldSteps hexported hmem
          exact field hf hserialized (Bool.eq_false_iff.2 hplain) htag hstep
      · cases hmem

/-- A step of a body is for a field that the body declares, or for a record that it embeds. -/
theorem of_mem_bodySteps (hstep : step ∈ bodySteps fields) :
    (∃ d tag, DeclaresField fields d ∧ d.tag = some tag ∧
      step.item = .field d tag d.ty.shape) ∨
    ∃ e, Embeds fields e ∧ step.item = .embed e := by
  induction hstep using bodySteps_induction with
  | field hf hserialized hplain htag => exact .inl ⟨_, _, .here hf hserialized hplain, htag, rfl⟩
  | embed hf hexported hembedded he => exact .inr ⟨_, .record hf hexported hembedded he, rfl⟩
  | inside hf hexported hembedded hr _ ih =>
      rcases ih with ⟨d, tag, hd, htag, hitem⟩ | ⟨e, he, hitem⟩
      · exact .inl ⟨d, tag, .inline hf hexported hembedded hr hd, htag, hitem⟩
      · exact .inr ⟨e, .inline hf hexported hembedded hr he, hitem⟩

/-! ## References -/

theorem mentions_of_mem_references (h : name ∈ references fields) : Mentions fields name := by
  obtain ⟨step, hstep, hname⟩ := mem_references.1 h
  clear h
  induction hstep using bodySteps_induction with
  | field hf hserialized hplain =>
      rcases TypeExpr.reference?_shape_eq_some_iff.1 hname with hty | ⟨element, hty, hof⟩
      · exact .record hf hserialized hplain hty
      · exact .list hf hserialized hplain hty hof
  | embed hf hexported hembedded he =>
      obtain rfl := Option.some.inj hname
      exact .embedded hf hexported hembedded he
  | inside hf hexported hembedded hr _ ih => exact .inline hf hexported hembedded hr (ih hname)

/-- A field that shows in documents and refers to a record has a step that does. -/
theorem mem_references_of_serialized (hf : f ∈ fields) (hserialized : f.isSerialized = true)
    (hplain : f.embedded = false) (hname : f.ty.shape.reference? = some name) :
    name ∈ references fields := by
  obtain ⟨hexported, tag, htag, hnode⟩ := exists_tag_of_isSerialized hserialized
  have hshape : f.ty.shape ≠ .anonymous := by
    intro hshape
    rw [hshape] at hname
    cases hname
  refine mem_references.2 ⟨{ item := .field f tag f.ty.shape }, ?_, hname⟩
  refine mem_bodySteps_iff.2 ⟨f, hf, ?_⟩
  rw [declSteps_eq, if_pos hexported, if_neg (by simp [hplain]),
    fieldSteps_of_tag htag hnode hshape]
  exact List.mem_singleton_self _

theorem mem_references_of_mentions (h : Mentions fields name) : name ∈ references fields := by
  induction h with
  | record mem serialized plain type =>
      exact mem_references_of_serialized mem serialized plain
        (TypeExpr.reference?_shape_eq_some_iff.2 (.inl type))
  | list mem serialized plain type of =>
      exact mem_references_of_serialized mem serialized plain
        (TypeExpr.reference?_shape_eq_some_iff.2 (.inr ⟨_, type, of⟩))
  | embedded mem exported embedded type =>
      refine mem_references.2 ⟨{ item := .embed _ }, ?_, rfl⟩
      refine mem_bodySteps_of_embedded mem exported embedded ?_
      rw [embedSteps_of_recordName? type]
      exact List.mem_singleton_self _
  | @inline _ f _ _ mem exported embedded type _ ih =>
      obtain ⟨inner, hinner, hname⟩ := mem_references.1 ih
      refine mem_references.2 ⟨inner.inside f.ty.display, ?_, hname⟩
      refine mem_bodySteps_of_embedded mem exported embedded ?_
      rw [embedSteps_of_inline type]
      exact List.mem_map_of_mem hinner

/-- A body refers to the records that its fields mention. -/
theorem mem_references_iff_mentions : name ∈ references fields ↔ Mentions fields name :=
  ⟨mentions_of_mem_references, mem_references_of_mentions⟩

section Catalog

variable {c : Catalog} {a b : String} {g : Graph}

theorem refersTo_iff_mentions : RefersTo c a b ↔ c.Mentions a b :=
  exists_congr fun _ => and_congr_right fun _ => mem_references_iff_mentions

/-- Names that refer to each other only reach each other only. -/
theorem mem_of_reaches (names : List String)
    (hclosed : ∀ m ∈ names, ∀ r ∈ c.find? m, ∀ name ∈ references r.fields, name ∈ names)
    (h : c.Reaches a b) (ha : a ∈ names) : b ∈ names := by
  induction h with
  | refl => exact ha
  | tail _ hstep ih =>
      obtain ⟨r, hr, hname⟩ := refersTo_iff_mentions.2 hstep
      exact hclosed _ ih r hr _ hname

/-- Names that refer to names in front of them only reach no cycle. -/
theorem acyclicFrom_of_order (names : List String)
    (horder : ∀ m ∈ names, ∀ r ∈ c.find? m, ∀ name ∈ references r.fields,
      name ∈ names ∧ names.idxOf name < names.idxOf m)
    (ha : a ∈ names) : c.AcyclicFrom a := by
  refine .of_rank names.idxOf fun m hm name hname => ?_
  have hclosed :=
    mem_of_reaches names (fun m hm r hr name hname => (horder m hm r hr name hname).1) hm ha
  obtain ⟨r, hr, hreference⟩ := refersTo_iff_mentions.2 hname
  exact (horder m hclosed r hr name hreference).2

theorem LeadsTo.reaches (h : LeadsTo c g a b) : c.Reaches a b :=
  Relation.ReflTransGen.mono (fun _ _ hstep => refersTo_iff_mentions.1 hstep.1) _ _ h

/-- The names under analysis with a record mention each other one after the other. -/
theorem Grown.isChain_guard {s : WalkState} {frames : List Frame} {f : Frame}
    (h : Grown c (Declared c) s frames) (hf : f ∈ frames) :
    List.IsChain c.Mentions f.guard.names := by
  induction h generalizing f with
  | start => cases hf
  | @enter s frames r h _ _ hasked ih =>
      rcases List.mem_append.1 hf with hf | hf
      · exact ih hf
      · rw [List.mem_singleton.1 hf, CycleGuard.names_push]
        by_cases hempty : s.guard.names = []
        · rw [hempty]
          exact List.isChain_singleton _
        · -- the innermost record so far asks for the new one
          obtain ⟨inner, hinner, hnames⟩ := h.exists_frame_of_prefix List.prefix_rfl hempty
          have hguard : inner.guard = s.guard := congrArg CycleGuard.mk hnames
          obtain ⟨outer, houter⟩ := h.exists_guard_eq hinner
          have hchain := ih hinner
          rw [hguard] at hchain houter
          refine List.isChain_append.2 ⟨hchain, List.isChain_singleton _, ?_⟩
          intro x hx y hy
          rw [houter, List.getLast?_concat] at hx
          obtain rfl := Option.some.inj hx
          obtain rfl := Option.some.inj hy
          exact refersTo_iff_mentions.1
            ⟨inner.decl, h.known_decl hinner, hasked inner hinner hguard⟩
  | leave _ _ _ _ ih => exact ih hf

/-- A way of mentions from `target` to `owner` that passes each record once and goes on to `target`
again. -/
structure IsWayAround (c : Catalog) (target owner : String) (way : List String) : Prop where
  head : way.head? = some target
  last : way.getLast? = some owner
  nodup : way.Nodup
  chain : List.IsChain c.Mentions (way ++ [target])

/-- The names under analysis from one on that a record refers to are a way around. -/
theorem Grown.isWayAround {s : WalkState} {frames : List Frame} {f : Frame}
    (h : Grown c (Declared c) s frames) (hf : f ∈ frames) (hname : name ∈ f.guard.names)
    (hmention : name ∈ f.references) :
    IsWayAround c name f.name (f.guard.names.dropWhile (· != name)) := by
  have hsuffix := List.dropWhile_suffix (l := f.guard.names) (· != name)
  have hne : f.guard.names.dropWhile (· != name) ≠ [] := by
    intro hnil
    simpa using List.dropWhile_eq_nil_iff.1 hnil name hname
  have hlast : (f.guard.names.dropWhile (· != name)).getLast? = some f.name := by
    obtain ⟨outer, houter⟩ := h.exists_guard_eq hf
    obtain ⟨front, hfront⟩ := hsuffix
    have hconcat : (front ++ f.guard.names.dropWhile (· != name)).getLast? = some f.name := by
      rw [hfront, houter, List.getLast?_concat]
    rwa [List.getLast?_append_of_ne_nil _ hne] at hconcat
  refine ⟨?_, hlast, (h.guard_nodup_of_mem hf).sublist hsuffix.sublist, ?_⟩
  · have hhead := List.head?_dropWhile_not (· != name) f.guard.names
    rw [List.head?_eq_some_head hne] at hhead ⊢
    simpa using hhead
  · refine List.isChain_append.2 ⟨(h.isChain_guard hf).suffix hsuffix, List.isChain_singleton _, ?_⟩
    intro x hx y hy
    rw [hlast] at hx
    obtain rfl := Option.some.inj hx
    obtain rfl := Option.some.inj hy
    exact refersTo_iff_mentions.1 ⟨f.decl, h.known_decl hf, hmention⟩

end Catalog

end Reflection

end RecordSchema
