import RecordSchema.Proofs.Catalog.Reading

/-!
# Catalogs but for their values

The reader keeps the choices of a field and does not look at them again.  So from two positions that
differ in such values only it goes the same way, and reads catalogs that differ in the valid values
of fields only.
-/

namespace RecordSchema

/-! ## Declarations -/

mutual

/-- The type without the valid values of fields declared in place. -/
def TypeExpr.withoutValues : TypeExpr → TypeExpr
  | .scalar kind => .scalar kind
  | .named name => .named name
  | .inline record => .inline record.withoutValues
  | .optional inner => .optional inner.withoutValues
  | .list element => .list element.withoutValues

def FieldDecl.withoutValues : FieldDecl → FieldDecl
  | { name, ty, tag, exported, embedded, .. } =>
    { name, ty := ty.withoutValues, tag, exported, embedded }

def FieldDecl.allWithoutValues : List FieldDecl → List FieldDecl
  | [] => []
  | f :: rest => f.withoutValues :: FieldDecl.allWithoutValues rest

def RecordDecl.withoutValues : RecordDecl → RecordDecl
  | { name, package, element, fields } =>
    { name, package, element, fields := FieldDecl.allWithoutValues fields }

end

theorem FieldDecl.allWithoutValues_append (fields fields' : List FieldDecl) :
    allWithoutValues (fields ++ fields') = allWithoutValues fields ++ allWithoutValues fields' := by
  induction fields with
  | nil => rfl
  | cons f rest ih =>
      rw [List.cons_append, allWithoutValues, allWithoutValues, ih, List.cons_append]

theorem RecordDecl.withoutValues_eq_iff {r r' : RecordDecl} :
    r.withoutValues = r'.withoutValues ↔ r.name = r'.name ∧ r.package = r'.package ∧
      r.element = r'.element ∧
      FieldDecl.allWithoutValues r.fields = FieldDecl.allWithoutValues r'.fields := by
  cases r
  cases r'
  simp [withoutValues]

theorem FieldDecl.withoutValues_eq_iff {f f' : FieldDecl} :
    f.withoutValues = f'.withoutValues ↔ f.name = f'.name ∧
      f.ty.withoutValues = f'.ty.withoutValues ∧ f.tag = f'.tag ∧ f.exported = f'.exported ∧
      f.embedded = f'.embedded := by
  cases f
  cases f'
  simp [withoutValues]

/-- The catalogs are the same, but for the valid values of fields. -/
structure Catalog.EqButValues (c c' : Catalog) : Prop where
  package : c.package = c'.package
  records : c.records.map RecordDecl.withoutValues = c'.records.map RecordDecl.withoutValues

namespace Catalog.EqButValues

variable {c c' : Catalog}

theorem symm (h : c.EqButValues c') : c'.EqButValues c := ⟨h.package.symm, h.records.symm⟩

theorem names_eq (h : c.EqButValues c') : c.names = c'.names := by
  have hname : RecordDecl.name ∘ RecordDecl.withoutValues = RecordDecl.name := by
    funext r
    cases r
    rfl
  rw [names, names, ← hname, ← List.map_map, ← List.map_map, h.records]

end Catalog.EqButValues

namespace CatalogDocument

open Markup (Element Event)

variable {p p' q : Position} {ev : Event} {events : List Event} {c c' : Catalog}
  {f f' : OpenField} {decl : FieldDecl} {ty ty' : TypeExpr} {r r' : RecordDecl}

/-! ## Fields -/

structure OpenField.EqButValues (f f' : OpenField) : Prop where
  head : f.head = f'.head
  inline : f.inline.map RecordDecl.withoutValues = f'.inline.map RecordDecl.withoutValues

namespace OpenField.EqButValues

theorem refl (f : OpenField) : f.EqButValues f := ⟨rfl, rfl⟩

theorem symm (h : f.EqButValues f') : f'.EqButValues f := ⟨h.head.symm, h.inline.symm⟩

end OpenField.EqButValues

namespace FieldHead

variable {h : FieldHead}

theorem withoutValues_wrapType (h : FieldHead) (ty : TypeExpr) :
    (h.wrapType ty).withoutValues = h.wrapType ty.withoutValues := by
  rw [wrapType, wrapType]
  cases h.list <;> cases h.optional <;> simp [TypeExpr.withoutValues]

/-- Records in place that differ in values only make the same base, but for its values. -/
theorem HasBase.exists_hasBase {inline inline' : Option RecordDecl}
    (heq : inline.map RecordDecl.withoutValues = inline'.map RecordDecl.withoutValues)
    (hbase : h.HasBase inline ty) :
    ∃ ty', h.HasBase inline' ty' ∧ ty.withoutValues = ty'.withoutValues := by
  cases hbase with
  | scalar typed scalar =>
      obtain rfl : inline' = none := by simpa using heq.symm
      exact ⟨_, .scalar typed scalar, rfl⟩
  | named typed not_scalar =>
      obtain rfl : inline' = none := by simpa using heq.symm
      exact ⟨_, .named typed not_scalar, rfl⟩
  | inline untyped =>
      obtain ⟨r', rfl, hr⟩ := Option.map_eq_some_iff.1 heq.symm
      refine ⟨_, .inline untyped, ?_⟩
      rw [TypeExpr.withoutValues, TypeExpr.withoutValues, hr]

theorem name_embed (ty : TypeExpr) :
    (FieldDecl.embed ty).name = (FieldDecl.embed ty.withoutValues).name := by
  cases ty <;> rw [TypeExpr.withoutValues] <;> rfl

/-- A field is not called after values. -/
theorem HasName.of_withoutValues {name : String} (heq : ty.withoutValues = ty'.withoutValues)
    (hname : h.HasName ty name) : h.HasName ty' name := by
  cases hname with
  | own embedded name_eq ne => exact .own embedded name_eq ne
  | embedded embedded =>
      rw [name_embed ty, heq, ← name_embed]
      exact .embedded embedded

end FieldHead

/-- From content that differs in values only the same field is made, but for its values. -/
theorem OpenField.EqButValues.exists_finish (h : f.EqButValues f') (hfinish : f.finish = .ok decl) :
    ∃ decl', f'.finish = .ok decl' ∧ decl.withoutValues = decl'.withoutValues := by
  obtain ⟨base, name, hbase, hname, rfl⟩ := OpenField.finish_eq_ok_iff.1 hfinish
  obtain ⟨base', hbase', hty⟩ := hbase.exists_hasBase h.inline
  have hwrap : (f.head.wrapType base).withoutValues = (f.head.wrapType base').withoutValues := by
    rw [FieldHead.withoutValues_wrapType, FieldHead.withoutValues_wrapType, hty]
  have hname' := hname.of_withoutValues hwrap
  rw [h.head] at hbase' hname'
  refine ⟨_, OpenField.finish_eq_ok_iff.2 ⟨base', name, hbase', hname', rfl⟩, ?_⟩
  rw [FieldDecl.withoutValues_eq_iff, ← h.head]
  exact ⟨rfl, hwrap, rfl, rfl, rfl⟩

/-! ## Catalogs -/

theorem exists_addRecord_eqButValues (h : c.EqButValues c')
    (hr : r.withoutValues = r'.withoutValues) {added : Catalog}
    (hadd : addRecord c r = .ok added) :
    ∃ added', addRecord c' r' = .ok added' ∧ added.EqButValues added' := by
  have hname : r.name = r'.name := (RecordDecl.withoutValues_eq_iff.1 hr).1
  by_cases htaken : r.name ∈ c.names
  · rw [addRecord, Catalog.insert?, dif_pos htaken] at hadd
    cases hadd
  · rw [addRecord, Catalog.insert?, dif_neg htaken] at hadd
    cases hadd
    rw [h.names_eq, hname] at htaken
    rw [addRecord, Catalog.insert?, dif_neg htaken]
    refine ⟨_, rfl, h.package, ?_⟩
    rw [List.map_append, List.map_append, h.records, List.map_singleton, List.map_singleton, hr]

/-! ## Positions -/

/-- What lists of fields belong to is the same, but for values. -/
inductive Owner.EqButValues : Owner → Owner → Prop
  | record {c c' : Catalog} {head : RecordDecl} (catalog : c.EqButValues c') :
      EqButValues (.record c head) (.record c' head)
  | inline {outer outer' : Owner} {before before' : List FieldDecl} {f f' : OpenField}
      (owner : EqButValues outer outer')
      (fields : FieldDecl.allWithoutValues before = FieldDecl.allWithoutValues before')
      (field : f.EqButValues f') : EqButValues (.inline outer before f) (.inline outer' before' f')

namespace Owner.EqButValues

theorem refl : ∀ owner : Owner, owner.EqButValues owner
  | .record .. => .record ⟨rfl, rfl⟩
  | .inline outer _ f => .inline (refl outer) rfl (.refl f)

theorem symm {owner owner' : Owner} (h : owner.EqButValues owner') : owner'.EqButValues owner := by
  induction h with
  | record catalog => exact .record catalog.symm
  | inline _ fields field ih => exact .inline ih fields.symm field.symm

end Owner.EqButValues

/-- The reader stands at the same place, and what it has read is the same but for values. -/
inductive Position.EqButValues : Position → Position → Prop
  | start : EqButValues (.top none) (.top none)
  | top {c c' : Catalog} (catalog : c.EqButValues c') : EqButValues (.top c) (.top c')
  | fields {owner owner' : Owner} {before before' : List FieldDecl}
      (owner_eq : owner.EqButValues owner')
      (fields_eq : FieldDecl.allWithoutValues before = FieldDecl.allWithoutValues before') :
      EqButValues (.fields owner before) (.fields owner' before')
  | field {owner owner' : Owner} {before before' : List FieldDecl} {f f' : OpenField}
      (owner_eq : owner.EqButValues owner')
      (fields_eq : FieldDecl.allWithoutValues before = FieldDecl.allWithoutValues before')
      (field_eq : f.EqButValues f') : EqButValues (.field owner before f) (.field owner' before' f')
  | choice {owner owner' : Owner} {before before' : List FieldDecl} {f f' : OpenField}
      {text text' : String} (owner_eq : owner.EqButValues owner')
      (fields_eq : FieldDecl.allWithoutValues before = FieldDecl.allWithoutValues before')
      (field_eq : f.EqButValues f') :
      EqButValues (.choice owner before f text) (.choice owner' before' f' text')

theorem Owner.EqButValues.exists_closeFields {owner owner' : Owner}
    {before before' : List FieldDecl} (h : owner.EqButValues owner')
    (hfields : FieldDecl.allWithoutValues before = FieldDecl.allWithoutValues before')
    (hclose : closeFields before owner = .ok p) :
    ∃ p', closeFields before' owner' = .ok p' ∧ p.EqButValues p' := by
  cases h with
  | @record _ _ head catalog =>
      obtain ⟨c₁, hadd, hp⟩ := bind_eq_ok_iff.1 hclose
      cases hp
      have hr : { head with fields := before }.withoutValues =
          { head with fields := before' }.withoutValues :=
        RecordDecl.withoutValues_eq_iff.2 ⟨rfl, rfl, rfl, hfields⟩
      obtain ⟨c₂, hadd', heq⟩ := exists_addRecord_eqButValues catalog hr hadd
      exact ⟨_, bind_eq_ok_iff.2 ⟨c₂, hadd', rfl⟩, .top heq⟩
  | inline outer fields field =>
      cases hclose
      refine ⟨_, rfl, .field outer fields ⟨field.head, ?_⟩⟩
      simp [RecordDecl.withoutValues_eq_iff, hfields]

namespace Position.EqButValues

theorem symm (h : p.EqButValues q) : q.EqButValues p := by
  cases h with
  | start => exact .start
  | top catalog => exact .top catalog.symm
  | fields owner fields => exact .fields owner.symm fields.symm
  | field owner fields field => exact .field owner.symm fields.symm field.symm
  | choice owner fields field => exact .choice owner.symm fields.symm field.symm

theorem passesOver_eq (h : p.EqButValues q) (ev : Event) : p.passesOver ev = q.passesOver ev := by
  cases h <;> cases ev <;> rfl

/-- An event takes the reader the same way, whatever values it has read. -/
theorem exists_steps (h : p.EqButValues q) (hstep : Steps p ev p') :
    ∃ q', Steps q ev q' ∧ p'.EqButValues q' := by
  cases hstep with
  | skip passed => exact ⟨q, .skip (h.passesOver_eq ev ▸ passed), h⟩
  | catalog tag => cases h <;> exact ⟨_, .catalog tag, .top ⟨rfl, rfl⟩⟩
  | emptyCatalog tag => cases h <;> exact ⟨_, .emptyCatalog tag, .top ⟨rfl, rfl⟩⟩
  | record tag head_eq =>
      cases h with
      | top catalog =>
          rw [catalog.package] at head_eq
          exact ⟨_, .record tag head_eq, .fields (.record catalog) rfl⟩
  | emptyRecord tag head_eq added =>
      cases h with
      | top catalog =>
          rw [catalog.package] at head_eq
          obtain ⟨c₁, hadd, heq⟩ := exists_addRecord_eqButValues catalog rfl added
          exact ⟨_, .emptyRecord tag head_eq hadd, .top heq⟩
  | closeFields closed =>
      cases h with
      | fields owner fields =>
          obtain ⟨q', hclose, heq⟩ := owner.exists_closeFields fields closed
          exact ⟨q', .closeFields hclose, heq⟩
  | field tag head_eq =>
      cases h with
      | fields owner fields =>
          exact ⟨_, .field tag head_eq, .field owner fields ⟨rfl, rfl⟩⟩
  | emptyField tag decl =>
      cases h with
      | fields owner fields =>
          refine ⟨_, .emptyField tag decl, .fields owner ?_⟩
          rw [FieldDecl.allWithoutValues_append, FieldDecl.allWithoutValues_append, fields]
  | closeField decl =>
      cases h with
      | field owner fields field =>
          obtain ⟨f', hfinish, heq⟩ := field.exists_finish decl
          refine ⟨_, .closeField hfinish, .fields owner ?_⟩
          rw [FieldDecl.allWithoutValues_append, FieldDecl.allWithoutValues_append, fields]
          simp [FieldDecl.allWithoutValues, heq]
  | inline tag =>
      cases h with
      | field owner fields field => exact ⟨_, .inline tag, .fields (.inline owner fields field) rfl⟩
  | emptyInline tag =>
      cases h with
      | field owner fields field =>
          exact ⟨_, .emptyInline tag, .field owner fields ⟨field.head, rfl⟩⟩
  | choice tag =>
      cases h with
      | field owner fields field => exact ⟨_, .choice tag, .choice owner fields field⟩
  | emptyChoice tag =>
      cases h with
      | field owner fields field => exact ⟨_, .emptyChoice tag, .field owner fields field⟩
  | closeChoice =>
      cases h with
      | choice owner fields field =>
          exact ⟨_, .closeChoice, .field owner fields ⟨field.head, field.inline⟩⟩
  | text =>
      cases h with
      | choice owner fields field => exact ⟨_, .text, .choice owner fields field⟩

/-- A run goes the same way, whatever values have been read. -/
theorem exists_runs (h : p.EqButValues q) (hrun : Runs p events p') :
    ∃ q', Runs q events q' ∧ p'.EqButValues q' := by
  induction events generalizing p q with
  | nil =>
      obtain rfl := runs_nil_iff.1 hrun
      exact ⟨q, runs_nil_iff.2 rfl, h⟩
  | cons ev events ih =>
      obtain ⟨p₁, hstep, hrest⟩ := runs_cons_iff.1 hrun
      obtain ⟨q₁, hstep', heq⟩ := h.exists_steps (steps_of_step hstep)
      obtain ⟨q', hrest', heq'⟩ := ih heq hrest
      exact ⟨q', runs_cons_iff.2 ⟨q₁, step_of_steps hstep', hrest'⟩, heq'⟩

end Position.EqButValues

end CatalogDocument

end RecordSchema
