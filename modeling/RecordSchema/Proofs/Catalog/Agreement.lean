import RecordSchema.Proofs.Catalog.Validation

/-!
# Catalogs that agree

Two catalogs agree from a record on if they have the same declarations for all that the record
reaches.  They do if one is a rearrangement of the other, or has some more records that are not
reached; and a rearrangement of a valid catalog is valid.
-/

namespace RecordSchema

variable {c c' : Catalog} {n : String}

namespace Validation

/-- The catalogs have the same names. -/
def SameNames (c c' : Catalog) : Prop := ∀ name, c'.contains name = c.contains name

-- the four kinds of checks call each other as the declarations contain each other
mutual

theorem checkFields_congr (h : SameNames c c') (label : String) (seen : List String)
    (hasCharData : Bool) : ∀ fields : List FieldDecl,
      checkFields c' label seen hasCharData fields = checkFields c label seen hasCharData fields
  | [] => by rw [checkFields, checkFields]
  | f :: rest => by
      rw [checkFields, checkFieldType_congr h label f, checkFields_congr h label _ _ rest,
        checkFields]

theorem checkFieldType_congr (h : SameNames c c') (label : String) :
    ∀ f : FieldDecl, checkFieldType c' label f = checkFieldType c label f
  | { name, ty, .. } => by rw [checkFieldType, checkType_congr h label name ty, checkFieldType]

theorem checkType_congr (h : SameNames c c') (label field : String) :
    ∀ ty : TypeExpr, checkType c' label field ty = checkType c label field ty
  | .scalar _ => by rw [checkType, checkType]
  | .named name => by rw [checkType, h, checkType]
  | .inline record => by rw [checkType, checkRecord_congr h _ record, checkType]
  | .optional inner => by rw [checkType, checkType_congr h label field inner, checkType]
  | .list element => by rw [checkType, checkType_congr h label field element, checkType]

/-- A record is checked alike in catalogs that have the same names. -/
theorem checkRecord_congr (h : SameNames c c') (label : String) :
    ∀ r : RecordDecl, checkRecord c' label r = checkRecord c label r
  | { fields, .. } => by rw [checkRecord, checkFields_congr h label [] false fields, checkRecord]

end

end Validation

namespace Catalog

/-! ## Rearrangements -/

theorem find?_eq_of_perm (h : c'.records.Perm c.records) (name : String) :
    c'.find? name = c.find? name := by
  ext r
  rw [find?_eq_some_iff, find?_eq_some_iff, h.mem_iff]

/-- A rearrangement of a valid catalog is valid. -/
theorem validate_of_perm (h : c'.records.Perm c.records) (hvalid : c.validate = .ok ()) :
    c'.validate = .ok () := by
  have hnames : Validation.SameNames c c' := by
    intro name
    rw [contains, find?_eq_of_perm h, contains]
  refine validate_eq_ok_iff.2 fun r hr => ?_
  rw [Validation.checkRecord_congr hnames]
  exact validate_eq_ok_iff.1 hvalid r (h.mem_iff.1 hr)

/-! ## Agreement -/

/-- From `n` on, `c'` has the declarations of `c`. -/
structure AgreeFrom (c c' : Catalog) (n : String) : Prop where
  package : c'.package = c.package
  find?_eq : ∀ m, c.Reaches n m → c'.find? m = c.find? m

theorem AgreeFrom.of_mentions {m : String} (h : c.AgreeFrom c' n) (hm : c.Mentions n m) :
    c.AgreeFrom c' m where
  package := h.package
  find?_eq k hk := h.find?_eq k (.head hm hk)

theorem agreeFrom_of_perm (hpackage : c'.package = c.package) (h : c'.records.Perm c.records)
    (n : String) : c.AgreeFrom c' n :=
  ⟨hpackage, fun m _ => find?_eq_of_perm h m⟩

/-- What is reached stays reached when records are added. -/
theorem Reaches.mono {a b : String} (hsub : c.records ⊆ c'.records) (h : c.Reaches a b) :
    c'.Reaches a b := by
  refine Relation.ReflTransGen.mono (fun a b => ?_) _ _ h
  rintro ⟨r, hr, hmention⟩
  obtain ⟨hmem, hname⟩ := find?_eq_some_iff.1 hr
  exact ⟨r, find?_eq_some_iff.2 ⟨hsub hmem, hname⟩, hmention⟩

/-- Records that are not reached do not matter. -/
theorem agreeFrom_of_subset (hpackage : c'.package = c.package) (hsub : c.records ⊆ c'.records)
    (hunreached : ∀ r ∈ c'.records, r ∉ c.records → ¬c'.Reaches n r.name) : c.AgreeFrom c' n := by
  refine ⟨hpackage, fun m hm => ?_⟩
  cases hr : c.find? m with
  | some r =>
      obtain ⟨hmem, hname⟩ := find?_eq_some_iff.1 hr
      exact find?_eq_some_iff.2 ⟨hsub hmem, hname⟩
  | none =>
      refine Option.eq_none_iff_forall_ne_some.2 fun r hr' => ?_
      obtain ⟨hmem, rfl⟩ := find?_eq_some_iff.1 hr'
      have hnew : r ∉ c.records := by
        intro hold
        rw [find?_eq_some_iff.2 ⟨hold, rfl⟩] at hr
        cases hr
      exact hunreached r hmem hnew (hm.mono hsub)

end Catalog

end RecordSchema
