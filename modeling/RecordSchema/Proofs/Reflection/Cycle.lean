import RecordSchema.Proofs.Reflection.Embedding
import RecordSchema.Proofs.Reflection.Form

/-!
# Cycle marks

A field that refers to a record under analysis is marked with a trace of the names under analysis
from that record on.  These names mention each other one after the other, and none of them comes
twice; so the trace shows a way around, and the way ends at the record that declares the field.
Records that embed this record have copies of the mark, and a copy shows the same way.
-/

namespace RecordSchema.Reflection

open Schema (Field Graph Struct)

variable {c : Catalog} {g : Graph} {guard : CycleGuard} {owner trace : String} {d : FieldDecl}
  {tag : Tag} {f : Field}

/-- The field `f` shows `d`, which refers to `target`, with a mark; the rules for overrides may have
gone over it. -/
structure IsMarkOf (d : FieldDecl) (target trace : String) (f : Field) : Prop where
  refers : d.ty.Names target
  shown : ∃ tag optionality planHint, d.tag = some tag ∧
    f = { fieldBase d tag d.ty.shape with link := .cycle trace, optionality, planHint }

/-- The field `f` of the struct `name` has a mark that is true: it shows a field of a record that is
`name` or is embedded in it, and the trace is a way around from what this field refers to. -/
def HasTrueMark (c : Catalog) (name : String) (f : Field) (trace : String) : Prop :=
  ∃ (owner : RecordDecl) (d : FieldDecl) (target : String) (way : List String),
    c.find? owner.name = some owner ∧ Relation.ReflTransGen c.Embeds name owner.name ∧
    DeclaresField owner.fields d ∧ IsMarkOf d target trace f ∧
    IsWayAround c target owner.name way ∧
    trace = traceSeparator.intercalate (way ++ [target])

/-! ## Marks of declared fields -/

/-- A reference that leads back shows in the link of the field and nowhere else. -/
theorem fieldOf_cycle {shape : Shape} {target : String} (h : shape.reference? = some target) :
    fieldOf d tag shape (some (.cycle trace)) =
      { fieldBase d tag shape with link := .cycle trace } := by
  cases shape with
  | record _ | recordList _ => rfl
  | scalar _ | scalarList _ | nestedList | anonymous => cases h

/-- A field is marked if its declaration refers to a name under analysis, with the trace of that
name. -/
theorem exists_mark (htag : d.tag = some tag)
    (hf : f ∈ finishField g owner
      (fieldOf d tag d.ty.shape (d.ty.shape.reference?.bind (referent? g guard))))
    (hlink : f.link = .cycle trace) :
    ∃ target ∈ guard.names, d.ty.shape.reference? = some target ∧ trace = guard.trace target ∧
      IsMarkOf d target trace f := by
  have hbase := link_fieldOf d tag d.ty.shape (referent? g guard)
  rw [← link_of_mem_finishField hf, hlink] at hbase
  cases htarget : d.ty.shape.reference? with
  | none =>
      rw [htarget] at hbase
      cases hbase
  | some target =>
      rw [htarget, Option.bind_some] at hf hbase
      by_cases hmem : target ∈ guard.names
      · rw [referent?_of_mem hmem] at hf hbase
        cases hbase
        rw [fieldOf_cycle htarget, finishField_of_not_marker rfl, List.mem_singleton] at hf
        obtain ⟨optionality, planHint, hoverride⟩ := overrideField_same owner
          { fieldBase d tag d.ty.shape with link := .cycle (guard.trace target) }
        exact ⟨target, hmem, rfl, rfl, TypeExpr.reference?_shape_eq_some_iff.1 htarget,
          tag, optionality, planHint, htag, hf.trans hoverride⟩
      · -- what is not under analysis gives a link to a struct, or none
        rw [referent?, if_neg fun hc => hmem ((CycleGuard.contains_iff ..).1 hc)] at hbase
        cases hid : g.lookup target with
        | none =>
            rw [hid] at hbase
            cases hbase
        | some id =>
            rw [hid] at hbase
            cases hbase

/-! ## Copies -/

/-- Overriding keeps marks. -/
theorem IsMarkOf.overrideField {target : String} (h : IsMarkOf d target trace f)
    (owner : String) : IsMarkOf d target trace (overrideField owner f) := by
  obtain ⟨hrefers, tag, optionality, planHint, htag, rfl⟩ := h
  exact ⟨hrefers, tag, _, _, htag, overrideField_eq owner _⟩

/-- A copy in a record that embeds the struct has the mark too. -/
theorem HasTrueMark.copy {name outer : String} (h : HasTrueMark c name f trace)
    (hembeds : c.Embeds outer name) : HasTrueMark c outer (overrideField outer f) trace := by
  obtain ⟨owner, d, target, way, howner, hpath, hd, hmark, hway, htrace⟩ := h
  exact ⟨owner, d, target, way, howner, .head hembeds hpath, hd, hmark.overrideField outer, hway,
    htrace⟩

/-! ## Structs -/

/-- The fields that are marked in every state that a walk passes have true marks. -/
theorem Grown.hasTrueMark {s : WalkState} {frames : List Frame}
    (h : Grown c (Declared c) s frames) : ∀ t ∈ s.graph.structs, ∀ f ∈ t.fields, ∀ trace,
      f.link = .cycle trace → HasTrueMark c t.name f trace := by
  refine h.forall_structs (motive := fun _ name fields => ∀ f ∈ fields, ∀ trace,
    f.link = .cycle trace → HasTrueMark c name f trace) ?_ ?_ ?_
  · intro _ _ _ hf
    cases hf
  · intro _ _ _ _ _ hmarks
    exact hmarks
  · intro s frames frame h hframe _ hmarks f hf trace hlink
    have hdecl : c.find? frame.name = some frame.decl := h.known_decl hframe
    obtain ⟨step, hstep, hf⟩ := List.mem_flatMap.1 hf
    rcases of_mem_bodySteps hstep with ⟨d, tag, hd, htag, hitem⟩ | ⟨e, he, hitem⟩
    · rw [finishedFields, hitem] at hf
      obtain ⟨target, hmem, htarget, rfl, hmark⟩ := exists_mark htag hf hlink
      have hmention : target ∈ frame.references := by
        refine mem_references.2 ⟨step, hstep, ?_⟩
        rw [BodyStep.reference?, hitem]
        exact htarget
      exact ⟨frame.decl, d, target, _, hdecl, .refl, hd, hmark,
        h.isWayAround hframe hmem hmention, rfl⟩
    · obtain ⟨t, ht, f', hf', rfl⟩ := exists_of_mem_finishedFields hitem hf
      obtain ⟨hmem, rfl⟩ := h.indexed.mem_of_find? ht
      rw [overrideField_link] at hlink
      exact (hmarks t hmem f' hf' trace hlink).copy ⟨frame.decl, hdecl, he⟩

namespace Reflector

/-- After requests by name every mark is true, also where it is a copy: the trace names distinct
records, each mentioning the next one, from the record that the marked field refers to, to the
record that declares the field and back. -/
theorem after_marks_true (c : Catalog) (names : List String) {t : Struct} {f : Field}
    {trace : String} (ht : t ∈ (after c (names.map .reflect)).graph.structs) (hf : f ∈ t.fields)
    (hlink : f.link = .cycle trace) : HasTrueMark c t.name f trace := by
  obtain ⟨frames, h⟩ := after_reflect_grown c names
  exact h.hasTrueMark t ht f hf trace hlink

/-- A disk image, what images have in common and, declared in place, the images it is based on. -/
def imageCatalog : Catalog :=
  .ofRecords "storage"
    [{ name := "Disk"
       fields :=
        [{ name := "Image", ty := .optional (.named "Image")
           tag := some { name := "image", node := .element } }] },
     { name := "Image", fields := [.embed (.named "Common")] },
     { name := "Common"
       fields :=
        [.embed (.inline
          { fields :=
              [{ name := "Bases", ty := .list (.named "Image")
                 tag := some { name := "base", node := .element } }] })] }]

/-- The mark is made in what images have in common and copied to the image. -/
theorem after_marks_true_image :
    let g := (after imageCatalog (["Disk"].map .reflect)).graph
    ∃ t ∈ g.structs, ∃ f ∈ t.fields, t.name = "Image" ∧ f.name = "Bases" ∧
      f.link = .cycle "Image → Common → Image" ∧
      HasTrueMark imageCatalog t.name f "Image → Common → Image" := by
  intro g
  have hmark : ∃ t ∈ g.structs, ∃ f ∈ t.fields, t.name = "Image" ∧ f.name = "Bases" ∧
      f.link = .cycle "Image → Common → Image" := by
    decide +kernel
  obtain ⟨t, ht, f, hf, hstruct, hfield, hlink⟩ := hmark
  exact ⟨t, ht, f, hf, hstruct, hfield, hlink,
    after_marks_true imageCatalog ["Disk"] ht hf hlink⟩

end Reflector

end RecordSchema.Reflection
