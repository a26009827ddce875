import RecordSchema.Proofs.Catalog.Part
import RecordSchema.Proofs.Catalog.Validation

/-!
# Well-formed catalogs

Which catalogs are valid, told without the checks and their order: the fields of every record, and
of every record declared in place at any depth, have different names, tags that fit their types, at
most one place for character data, and name declared records only.  The checks carry the names and
the character data met so far along; what they find depends on nothing else, and not on the label
that calls a record in place by its path.
-/

namespace RecordSchema

variable {c : Catalog} {label field : String} {seen : List String} {hasCharData : Bool}
  {f : FieldDecl} {fields : List FieldDecl} {ty : TypeExpr}

/-- What the fields of one record are like, leaving aside those of records in place. -/
structure FieldsFit (c : Catalog) (fields : List FieldDecl) : Prop where
  /-- An empty name is no name. -/
  names_nodup : ((fields.map FieldDecl.name).filter (· ≠ "")).Nodup
  embedded_untagged : ∀ f ∈ fields, f.embedded = true → f.tag = none
  scalar_in_node : ∀ f ∈ fields, f.embedded = false →
    f.node? = some .attr ∨ f.node? = some .charData → ∃ kind, f.ty.stripOptional = .scalar kind
  charData_le_one : fields.countP (fun f => f.exported && f.node? == some .charData) ≤ 1
  declared : ∀ f ∈ fields, ∀ name, f.ty.Wraps (.named name) → name ∈ c.names

/-- Every list of fields in the catalog fits, those of records in place included. -/
def Catalog.WellFormed (c : Catalog) : Prop :=
  ∀ r ∈ c.records, ∀ fields, Encloses r.fields fields → FieldsFit c fields

namespace Validation

theorem tagFault?_eq_none_iff :
    tagFault? f = none ↔ (f.embedded = true → f.tag = none) ∧
      (f.embedded = false → f.node? = some .attr ∨ f.node? = some .charData →
        ∃ kind, f.ty.stripOptional = .scalar kind) := by
  have hscalar : f.ty.scalar? ≠ none ↔ ∃ kind, f.ty.stripOptional = .scalar kind := by
    rw [Option.ne_none_iff_exists']
    exact exists_congr fun _ => TypeExpr.scalar?_eq_some_iff
  rw [tagFault?, ← hscalar]
  cases f.embedded with
  | true => cases f.tag <;> simp
  | false =>
      cases hnode : f.node? with
      | none => simp
      | some node => cases node <;> simp

/-- A check that reports a fault does not find nothing, whatever comes after it. -/
theorem throw_bind_ne_ok {fault : SchemaError} {next : Unit → Except SchemaError Unit} :
    (throw fault >>= next) ≠ .ok () := nofun

theorem checkField_eq_ok_iff :
    checkField label seen hasCharData f = .ok () ↔
      f.name ∉ seen ∧ tagFault? f = none ∧ ¬(hasCharData = true ∧ holdsCharData f = true) := by
  rw [checkField]
  by_cases hname : f.name ∈ seen
  · rw [if_pos hname]
    exact iff_of_false throw_bind_ne_ok fun h => h.1 hname
  · rw [if_neg hname]
    cases tagFault? f with
    | some fault => exact iff_of_false throw_bind_ne_ok fun h => by cases h.2.1
    | none =>
        simp only [hname, not_false_eq_true, true_and, ← Bool.and_eq_true]
        split
        · rename_i hsecond
          exact iff_of_false nofun fun h => h hsecond
        · rename_i hfirst
          exact iff_of_true rfl hfirst

theorem empty_notMem_noteName (hseen : "" ∉ seen) (name : String) : "" ∉ noteName seen name := by
  rw [noteName]
  split
  · exact hseen
  · rename_i hname
    rw [List.mem_cons, not_or]
    refine ⟨?_, hseen⟩
    rintro rfl
    exact hname rfl

/-- A later field must repeat neither a name noted before nor the name that is noted now. -/
theorem forall_notMem_noteName_iff {name : String} :
    (∀ f ∈ fields, f.name ∉ noteName seen name) ↔
      (∀ f ∈ fields, f.name ∉ seen) ∧ (name ≠ "" → ∀ f ∈ fields, f.name ≠ name) := by
  rw [noteName]
  split
  · rename_i hempty
    rw [String.isEmpty_iff] at hempty
    exact (and_iff_left fun hname => absurd hempty hname).symm
  · rename_i hname
    rw [String.isEmpty_iff] at hname
    simp only [List.mem_cons, not_or, ne_eq, hname, not_false_eq_true, forall_const,
      ← forall_and]
    exact forall_congr' fun f => forall_congr' fun _ => and_comm

/-- Names are different from those of the first field on if it has no name, or one that none of the
others has. -/
theorem nodup_names_cons_iff :
    (((f :: fields).map FieldDecl.name).filter (· ≠ "")).Nodup ↔
      ((fields.map FieldDecl.name).filter (· ≠ "")).Nodup ∧
        (f.name ≠ "" → ∀ g ∈ fields, g.name ≠ f.name) := by
  rw [List.map_cons]
  by_cases hname : f.name = ""
  · rw [List.filter_cons_of_neg (by simp [hname])]
    exact (and_iff_left fun h => absurd hname h).symm
  · rw [List.filter_cons_of_pos (by simp [hname]), List.nodup_cons, and_comm]
    refine and_congr_right fun _ => ?_
    simp [hname]

/-- The names and the character data met so far are all that a list of fields is checked against. -/
theorem checkFields_eq_ok_iff (hseen : "" ∉ seen) :
    checkFields c label seen hasCharData fields = .ok () ↔
      (((fields.map FieldDecl.name).filter (· ≠ "")).Nodup ∧ ∀ f ∈ fields, f.name ∉ seen) ∧
        (∀ f ∈ fields, tagFault? f = none) ∧
        hasCharData.toNat + fields.countP holdsCharData ≤ 1 ∧
        ∀ f ∈ fields, checkType c label f.name f.ty = .ok () := by
  induction fields generalizing seen hasCharData with
  | nil => simp [checkFields, Bool.toNat_le]
  | cons f rest ih =>
      have hcount : hasCharData.toNat + (f :: rest).countP holdsCharData ≤ 1 ↔
          ¬(hasCharData = true ∧ holdsCharData f = true) ∧
            (hasCharData || holdsCharData f).toNat + rest.countP holdsCharData ≤ 1 := by
        rw [List.countP_cons]
        generalize rest.countP holdsCharData = n
        cases hasCharData <;> cases holdsCharData f <;> simp [Nat.add_comm 1 n]
      rw [checkFields_cons_eq_ok_iff, checkField_eq_ok_iff,
        ih (empty_notMem_noteName hseen f.name), forall_notMem_noteName_iff, nodup_names_cons_iff,
        hcount]
      simp only [List.forall_mem_cons]
      tauto

/-- A type is checked by the records it names and by the fields of the records in place. -/
theorem checkType_eq_ok_iff : ∀ ty : TypeExpr,
    checkType c label field ty = .ok () ↔
      (∀ name, ty.Wraps (.named name) → name ∈ c.names) ∧
        ∀ r, ty.Wraps (.inline r) →
          checkFields c s!"{label}.{field}" [] false r.fields = .ok ()
  | .scalar kind => by simp [checkType, TypeExpr.wraps_scalar_iff]
  | .named name => by
      rw [checkType]
      simp [TypeExpr.wraps_named_iff, c.mem_names_iff_contains]
  | .optional inner => by
      rw [checkType, checkType_eq_ok_iff inner]
      simp [TypeExpr.wraps_optional_iff]
  | .list element => by
      rw [checkType, checkType_eq_ok_iff element]
      simp [TypeExpr.wraps_list_iff]
  | .inline r => by
      cases r
      rw [checkType, checkRecord]
      simp [TypeExpr.wraps_inline_iff]

/-- The checks of a list of fields find nothing just when it fits and those of the records in place
find nothing. -/
theorem checkFields_eq_ok_iff_fieldsFit :
    checkFields c label [] false fields = .ok () ↔
      FieldsFit c fields ∧ ∀ f ∈ fields, ∀ r, f.ty.Wraps (.inline r) →
        checkFields c s!"{label}.{f.name}" [] false r.fields = .ok () := by
  rw [checkFields_eq_ok_iff (List.not_mem_nil)]
  simp only [checkType_eq_ok_iff, tagFault?_eq_none_iff]
  constructor
  · rintro ⟨⟨hnames, -⟩, htags, hcount, htypes⟩
    exact ⟨⟨hnames, fun f hf => (htags f hf).1, fun f hf => (htags f hf).2,
      Nat.zero_add (fields.countP _) ▸ hcount, fun f hf => (htypes f hf).1⟩,
      fun f hf => (htypes f hf).2⟩
  · rintro ⟨hfit, hinline⟩
    exact ⟨⟨hfit.names_nodup, fun _ _ => List.not_mem_nil⟩,
      fun f hf => ⟨hfit.embedded_untagged f hf, hfit.scalar_in_node f hf⟩,
      (Nat.zero_add (fields.countP _)).symm ▸ hfit.charData_le_one,
      fun f hf => ⟨hfit.declared f hf, hinline f hf⟩⟩

/-- Fields are checked, with those of all records in place, without regard to the label. -/
theorem checkFields_eq_ok_iff_forall (label : String) (fields : List FieldDecl) :
    checkFields c label [] false fields = .ok () ↔
      ∀ inner, Encloses fields inner → FieldsFit c inner := by
  induction fields using FieldDecl.nested_induction generalizing label with
  | step fields ih =>
      rw [checkFields_eq_ok_iff_fieldsFit]
      constructor
      · rintro ⟨hfit, hinline⟩ inner (_ | ⟨hf, hr, hinner⟩)
        · exact hfit
        · exact (ih _ hf _ hr _).1 (hinline _ hf _ hr) inner hinner
      · intro h
        exact ⟨h fields .refl, fun f hf r hr =>
          (ih f hf r hr _).2 fun inner hinner => h inner (.inline hf hr hinner)⟩

end Validation

/-- Validation accepts just the well-formed catalogs. -/
theorem Catalog.validate_eq_ok_iff_wellFormed (c : Catalog) :
    c.validate = .ok () ↔ c.WellFormed := by
  rw [validate_eq_ok_iff]
  refine forall_congr' fun r => forall_congr' fun _ => ?_
  cases r
  rw [Validation.checkRecord]
  exact Validation.checkFields_eq_ok_iff_forall _ _

end RecordSchema
