import RecordSchema.Catalog.Validation
import RecordSchema.Proofs.Catalog.Reference

/-!
# What validation finds

Validation goes into every type of every field, whether or not the field shows in documents.  So it
comes past whatever fields mention, and in a valid catalog all that a declared record reaches is
declared.
-/

namespace RecordSchema

variable {c : Catalog} {label field name : String} {seen : List String} {hasCharData : Bool}
  {f : FieldDecl} {fields rest : List FieldDecl} {ty : TypeExpr}

namespace Validation

/-- Of two checks one after the other both find nothing, or the first fault is reported. -/
theorem andThen_eq_ok_iff {x y : Except SchemaError Unit} :
    (x >>= fun _ => y) = .ok () ↔ x = .ok () ∧ y = .ok () := by
  cases x with
  | ok u => exact (and_iff_right rfl).symm
  | error e =>
      constructor
      · intro h
        cases h
      · rintro ⟨h, -⟩
        cases h

theorem forM_eq_ok_iff {α : Type} {check : α → Except SchemaError Unit} {l : List α} :
    l.forM check = .ok () ↔ ∀ a ∈ l, check a = .ok () := by
  induction l with
  | nil => simp [pure, Except.pure]
  | cons a rest ih =>
      change (check a >>= fun _ => rest.forM check) = .ok () ↔ _
      rw [andThen_eq_ok_iff, ih, List.forall_mem_cons]

theorem checkFields_cons_eq_ok_iff :
    checkFields c label seen hasCharData (f :: rest) = .ok () ↔
      checkField label seen hasCharData f = .ok () ∧ checkType c label f.name f.ty = .ok () ∧
        checkFields c label (noteName seen f.name) (hasCharData || holdsCharData f) rest =
          .ok () := by
  cases f
  rw [checkFields, andThen_eq_ok_iff, andThen_eq_ok_iff, checkFieldType]

/-- The type of every field is checked. -/
theorem checkType_of_checkFields (h : checkFields c label seen hasCharData fields = .ok ())
    (hf : f ∈ fields) : checkType c label f.name f.ty = .ok () := by
  induction fields generalizing seen hasCharData with
  | nil => cases hf
  | cons first rest ih =>
      obtain ⟨-, htype, hrest⟩ := checkFields_cons_eq_ok_iff.1 h
      rcases List.mem_cons.1 hf with rfl | hf
      · exact htype
      · exact ih hrest hf

/-- Optional wrappers do not count. -/
theorem checkType_stripOptional :
    ∀ ty : TypeExpr, checkType c label field ty = checkType c label field ty.stripOptional
  | .optional inner => by
      rw [checkType, TypeExpr.stripOptional]
      exact checkType_stripOptional inner
  | .scalar _ | .named _ | .inline _ | .list _ => rfl

/-- The record of a checked type is declared. -/
theorem contains_of_checkType (h : checkType c label field ty = .ok ())
    (hname : ty.recordName? = some name) : c.contains name = true := by
  rw [checkType_stripOptional, TypeExpr.recordName?_eq_some_iff.1 hname, checkType] at h
  split at h
  · assumption
  · cases h

/-- The fields of a record in place are checked too. -/
theorem checkFields_of_checkType {r : RecordDecl} (h : checkType c label field ty = .ok ())
    (hr : ty.stripOptional = .inline r) :
    checkFields c s!"{label}.{field}" [] false r.fields = .ok () := by
  cases r
  rwa [checkType_stripOptional, hr, checkType, checkRecord] at h

/-- What checked fields mention is declared. -/
theorem contains_of_mentions (hname : Mentions fields name)
    (h : checkFields c label seen hasCharData fields = .ok ()) : c.contains name = true := by
  induction hname generalizing label seen hasCharData with
  | record mem _ _ type => exact contains_of_checkType (checkType_of_checkFields h mem) type
  | list mem _ _ type of =>
      have hlist := checkType_of_checkFields h mem
      rw [checkType_stripOptional, type, checkType] at hlist
      exact contains_of_checkType hlist of
  | embedded mem _ _ type => exact contains_of_checkType (checkType_of_checkFields h mem) type
  | inline mem _ _ type _ ih =>
      exact ih (checkFields_of_checkType (checkType_of_checkFields h mem) type)

end Validation

namespace Catalog

variable {a b : String}

/-- A catalog is valid just when all of its records are. -/
theorem validate_eq_ok_iff :
    c.validate = .ok () ↔ ∀ r ∈ c.records, Validation.checkRecord c r.name r = .ok () :=
  Validation.forM_eq_ok_iff

/-- In a valid catalog all that is mentioned is declared. -/
theorem contains_of_mentions (hvalid : c.validate = .ok ()) (hmention : c.Mentions a b) :
    c.contains b = true := by
  obtain ⟨r, hr, hmention⟩ := hmention
  have hcheck := validate_eq_ok_iff.1 hvalid r (mem_of_find?_eq_some hr).1
  cases r
  rw [Validation.checkRecord] at hcheck
  exact Validation.contains_of_mentions hmention hcheck

/-- In a valid catalog all that a declared record reaches is declared. -/
theorem contains_of_reaches (hvalid : c.validate = .ok ()) (ha : c.contains a = true)
    (hreaches : c.Reaches a b) : c.contains b = true := by
  induction hreaches with
  | refl => exact ha
  | tail _ hmention _ => exact contains_of_mentions hvalid hmention

end Catalog

end RecordSchema
