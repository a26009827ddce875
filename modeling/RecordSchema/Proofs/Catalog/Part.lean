import RecordSchema.Catalog.Basic

/-!
# Parts of declarations

What a declaration holds at any depth: the types inside the wrappers of a type, and the fields of
the records that are declared in place within other fields.
-/

namespace RecordSchema

namespace TypeExpr

/-- The type is `part`, or `part` stands inside its wrappers. -/
inductive Wraps : TypeExpr → TypeExpr → Prop
  | refl {ty : TypeExpr} : Wraps ty ty
  | optional {inner part : TypeExpr} (h : Wraps inner part) : Wraps (.optional inner) part
  | list {element part : TypeExpr} (h : Wraps element part) : Wraps (.list element) part

theorem wraps_stripOptional : ∀ ty : TypeExpr, ty.Wraps ty.stripOptional
  | .optional inner => by
      rw [stripOptional]
      exact .optional inner.wraps_stripOptional
  | .scalar _ | .named _ | .inline _ | .list _ => .refl

theorem Wraps.sizeOf_le {ty part : TypeExpr} (h : ty.Wraps part) : sizeOf part ≤ sizeOf ty := by
  induction h with
  | refl => exact Nat.le_refl _
  | optional _ ih =>
      rw [optional.sizeOf_spec]
      omega
  | list _ ih =>
      rw [list.sizeOf_spec]
      omega

/-! What stands inside a wrapper stands inside the wrapped type, unless it is a wrapper itself. -/

theorem wraps_optional_iff {inner part : TypeExpr} :
    (optional inner).Wraps part ↔ part = .optional inner ∨ inner.Wraps part := by
  constructor
  · rintro (_ | h)
    · exact .inl rfl
    · exact .inr h
  · rintro (rfl | h)
    · exact .refl
    · exact .optional h

theorem wraps_list_iff {element part : TypeExpr} :
    (list element).Wraps part ↔ part = .list element ∨ element.Wraps part := by
  constructor
  · rintro (_ | _ | h)
    · exact .inl rfl
    · exact .inr h
  · rintro (rfl | h)
    · exact .refl
    · exact .list h

theorem wraps_scalar_iff {kind : ScalarKind} {part : TypeExpr} :
    (scalar kind).Wraps part ↔ part = .scalar kind := by
  constructor
  · rintro ⟨⟩
    rfl
  · rintro rfl
    exact .refl

theorem wraps_named_iff {name : String} {part : TypeExpr} :
    (named name).Wraps part ↔ part = .named name := by
  constructor
  · rintro ⟨⟩
    rfl
  · rintro rfl
    exact .refl

theorem wraps_inline_iff {r : RecordDecl} {part : TypeExpr} :
    (inline r).Wraps part ↔ part = .inline r := by
  constructor
  · rintro ⟨⟩
    rfl
  · rintro rfl
    exact .refl

end TypeExpr

/-- A record in place is smaller than the declarations with a field that holds it. -/
theorem RecordDecl.sizeOf_fields_lt {fields : List FieldDecl} {f : FieldDecl} {r : RecordDecl}
    (hf : f ∈ fields) (hr : f.ty.Wraps (.inline r)) : sizeOf r.fields < sizeOf fields := by
  have hlt := List.sizeOf_lt_of_mem hf
  have hle := hr.sizeOf_le
  obtain ⟨name, ty, tag, exported, embedded, values⟩ := f
  obtain ⟨rname, package, element, inner⟩ := r
  simp only [TypeExpr.inline.sizeOf_spec, RecordDecl.mk.sizeOf_spec] at hle
  simp only [FieldDecl.mk.sizeOf_spec] at hlt
  simp only
  omega

/-- Declarations are followed into all records declared in place. -/
@[elab_as_elim]
theorem FieldDecl.nested_induction {motive : List FieldDecl → Prop}
    (step : ∀ fields, (∀ f ∈ fields, ∀ r, f.ty.Wraps (.inline r) → motive r.fields) →
      motive fields)
    (fields : List FieldDecl) : motive fields :=
  step fields fun _ hf r hr =>
    have := RecordDecl.sizeOf_fields_lt hf hr
    nested_induction step r.fields
termination_by sizeOf fields

/-- Declarations are followed into the records declared in place under optional wrappers. -/
@[elab_as_elim]
theorem FieldDecl.inline_induction {motive : List FieldDecl → Prop}
    (step : ∀ fields, (∀ f ∈ fields, ∀ r, f.ty.stripOptional = .inline r → motive r.fields) →
      motive fields)
    (fields : List FieldDecl) : motive fields := by
  induction fields using FieldDecl.nested_induction with
  | step fields ih => exact step fields fun f hf r hr => ih f hf r (hr ▸ f.ty.wraps_stripOptional)

/-- The fields `inner` are `outer`, or those of a record declared in place within `outer`. -/
inductive Encloses : List FieldDecl → List FieldDecl → Prop
  | refl {fields : List FieldDecl} : Encloses fields fields
  | inline {outer inner : List FieldDecl} {f : FieldDecl} {r : RecordDecl} (mem : f ∈ outer)
      (type : f.ty.Wraps (.inline r)) (h : Encloses r.fields inner) : Encloses outer inner

/-- What holds of all fields that some fields enclose holds of these fields, and of those that the
records declared in place within them enclose. -/
theorem forall_encloses_iff {motive : FieldDecl → Prop} {fields : List FieldDecl} :
    (∀ inner, Encloses fields inner → ∀ f ∈ inner, motive f) ↔
      ∀ f ∈ fields, motive f ∧ ∀ r, f.ty.Wraps (.inline r) →
        ∀ inner, Encloses r.fields inner → ∀ f ∈ inner, motive f := by
  constructor
  · intro h f hf
    exact ⟨h fields .refl f hf, fun r hr inner hinner => h inner (.inline hf hr hinner)⟩
  · rintro h inner (_ | ⟨mem, type, hinner⟩) f hf
    · exact (h f hf).1
    · exact (h _ mem).2 _ type inner hinner f hf

end RecordSchema
