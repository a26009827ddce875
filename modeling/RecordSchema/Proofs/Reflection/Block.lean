import RecordSchema.Proofs.Reflection.Form

/-!
# Blocks of fields

Where a field refers to a value with attributes, the struct has a block instead of it: the value and
behind it the attributes of the pattern, each named after the value.  Attributes of a value stand
nowhere else, so a block ends where they do.  Embedding copies blocks whole.
-/

namespace RecordSchema.Reflection

open Schema (Field Graph HasForm Struct ValueWithUnit)

variable {g g' : Graph} {f v : Field} {fields front back rest : List Field} {owner : String}
  {t : Struct} {p : ValueWithUnit}

/-- Fields of which those that were taken apart stand in blocks. -/
inductive Blocks (g : Graph) : List Field → Prop
  | nil : Blocks g []
  | plain {f : Field} {rest : List Field} (value : f.pattern ≠ .flattenedValue)
      (attr : f.flattenedAttribute? = none) (tail : Blocks g rest) : Blocks g (f :: rest)
  | block {v : Field} {t : Struct} {p : ValueWithUnit} {rest : List Field}
      (value : v.pattern = .flattenedValue) (target : g.target? v = some t)
      (plain : t.pattern = .valueWithUnit p) (tail : Blocks g rest) :
      Blocks g (v :: (p.attributes.map (attributeField v) ++ rest))

/-- The attributes of values that fields begin with. -/
def leadingAttributes (fields : List Field) : List Field :=
  fields.takeWhile (·.flattenedAttribute?.isSome)

namespace Blocks

theorem append (h : Blocks g front) (h' : Blocks g back) : Blocks g (front ++ back) := by
  induction h with
  | nil => exact h'
  | plain value attr _ ih => exact .plain value attr ih
  | block value target plain _ ih =>
      rw [List.cons_append, List.append_assoc]
      exact .block value target plain ih

theorem flatMap {α : Type} {l : List α} {given : α → List Field}
    (h : ∀ x ∈ l, Blocks g (given x)) : Blocks g (l.flatMap given) := by
  induction l with
  | nil => exact .nil
  | cons x l ih =>
      obtain ⟨hx, hl⟩ := List.forall_mem_cons.1 h
      rw [List.flatMap_cons]
      exact hx.append (ih hl)

/-- Blocks stay blocks while the graph grows. -/
theorem of_keepsPatterns (h : Blocks g fields) (hkeeps : g.KeepsPatterns g') :
    Blocks g' fields := by
  induction h with
  | nil => exact .nil
  | plain value attr _ ih => exact .plain value attr ih
  | @block v _ _ _ value target plain _ ih =>
      obtain ⟨id, hid, ht⟩ := Option.bind_eq_some_iff.1 target
      obtain ⟨t', ht', hpattern, -⟩ := hkeeps id _ ht
      have htarget : g'.target? v = some t' := by rw [Graph.target?, hid, Option.bind_some, ht']
      exact .block value htarget (hpattern.trans plain) ih

/-- Overriding passes the attributes over, and it leaves what they take from the value. -/
theorem map_overrideField (h : Blocks g fields) (owner : String) :
    Blocks g (fields.map (overrideField owner)) := by
  induction h with
  | nil => exact .nil
  | plain value attr _ ih =>
      refine .plain ?_ ?_ ih
      · rw [overrideField_eq]
        exact value
      · rw [overrideField_flattenedAttribute?]
        exact attr
  | @block v t p rest value target plain _ ih =>
      have hattributes : (p.attributes.map (attributeField v)).map (overrideField owner) =
          p.attributes.map (attributeField (overrideField owner v)) := by
        rw [List.map_map]
        refine List.map_congr_left fun a _ => ?_
        rw [attributeField_overrideField, Function.comp_apply, overrideField_attributeField]
      rw [List.map_cons, List.map_append, hattributes]
      refine .block ?_ ?_ plain ih
      · rw [overrideField_eq]
        exact value
      · rw [Graph.target?, Field.target?, overrideField_link]
        exact target

/-- Blocks do not begin with an attribute. -/
theorem leadingAttributes_eq_nil (h : Blocks g fields) : leadingAttributes fields = [] := by
  cases h with
  | nil => rfl
  | plain _ attr => exact List.takeWhile_cons_of_neg (by simp [attr])
  | block value => exact List.takeWhile_cons_of_neg (by simp [Field.flattenedAttribute?, value])

/-- The attributes behind a value are those of its pattern. -/
theorem leadingAttributes_eq (h : Blocks g fields) (hfields : fields = front ++ v :: back)
    (hvalue : v.pattern = .flattenedValue) (htarget : g.target? v = some t)
    (hplain : t.pattern = .valueWithUnit p) :
    leadingAttributes back = p.attributes.map (attributeField v) := by
  induction h generalizing front with
  | nil => simp at hfields
  | plain value _ _ ih =>
      cases front with
      | nil =>
          cases hfields
          exact absurd hvalue value
      | cons f front =>
          cases hfields
          exact ih rfl
  | @block v' t' p' rest value target plain tail ih =>
      cases front with
      | nil =>
          cases hfields
          rw [htarget] at target
          cases target
          rw [hplain] at plain
          cases plain
          have htail := tail.leadingAttributes_eq_nil
          rw [leadingAttributes] at htail ⊢
          rw [List.takeWhile_append_of_pos fun f hf => ?_, htail, List.append_nil]
          obtain ⟨a, -, rfl⟩ := List.mem_map.1 hf
          rfl
      | cons f front =>
          rw [List.cons_append, List.cons.injEq] at hfields
          -- the value is no attribute, so it stands behind the block
          rcases List.append_eq_append_iff.1 hfields.2 with ⟨more, -, hrest⟩ | ⟨more, hmore, hback⟩
          · exact ih hrest
          · cases more with
            | nil =>
                cases hback
                exact ih (List.nil_append _).symm
            | cons f' more =>
                cases hback
                have hmem : v ∈ p'.attributes.map (attributeField v') := by
                  rw [hmore]
                  simp
                obtain ⟨a, -, rfl⟩ := List.mem_map.1 hmem
                cases hvalue

end Blocks

/-! ## Reflected fields -/

/-- A declared field is not part of a block yet. -/
theorem pattern_fieldOf (decl : FieldDecl) (tag : Tag) (shape : Shape)
    (referent : Option Referent) :
    (fieldOf decl tag shape referent).pattern ∈
      [.plain, .presenceBoolean, .flattenValueWithUnit] := by
  cases shape with
  | scalar kind =>
      rw [fieldOf, scalarField]
      split <;> simp [fieldBase]
  | record name =>
      cases referent with
      | none => simp [fieldOf, fieldBase]
      | some referent =>
          cases referent with
          | cycle trace => simp [fieldOf, recordField, fieldBase]
          | struct id target =>
              rw [fieldOf, recordField]
              split <;> simp [fieldBase]
  | recordList name => cases referent with
      | none => simp [fieldOf, fieldBase]
      | some referent => cases referent <;> simp [fieldOf, recordListField, fieldBase]
  | _ => simp [fieldOf, fieldBase]

theorem IsMarker.blocks_expandField (h : IsMarker g f t p) : Blocks g (expandField g f) := by
  have hblock : Blocks g
      (valueField f p :: (p.attributes.map (attributeField (valueField f p)) ++ [])) :=
    .block rfl h.target h.plain .nil
  rw [List.append_nil] at hblock
  rw [h.expandField_eq]
  exact hblock

/-- The fields a step gives in the end stand in blocks, if the fields of the structs do. -/
theorem blocks_finishedFields {guard : CycleGuard} (hg : g.Indexed)
    (hempty : ∀ t ∈ g.structs, t.pattern = .presenceOnly → t.fields = [])
    (hblocks : ∀ t ∈ g.structs, Blocks g t.fields) {step : BodyStep}
    (hmet : ∀ name, step.reference? = some name → name ∉ guard.names → name ∈ g.names) :
    Blocks g (finishedFields g guard owner step) := by
  rw [BodyStep.reference?] at hmet
  rw [finishedFields]
  cases hitem : step.item with
  | field decl tag shape =>
      rw [hitem] at hmet
      rcases form_or_marker_fieldOf hg hempty decl tag shape hmet with ⟨form, hform⟩ | ⟨t, p, hm⟩
      · -- a field with a form is no marker, so it is only overridden
        have hpattern := pattern_fieldOf decl tag shape
          (shape.reference?.bind (referent? g guard))
        simp only
        rw [finishField_of_not_marker hform.not_marker]
        refine (Blocks.plain (fun h => ?_) ?_ .nil).map_overrideField owner
        · rw [h] at hpattern
          simp at hpattern
        · rw [Field.flattenedAttribute?]
          split
          · rename_i h
            rw [h] at hpattern
            simp at hpattern
          · rfl
      · exact (hm.overrideField owner).blocks_expandField.map_overrideField owner
  | embed record =>
      simp only
      split
      · exact .nil
      · cases ht : g.find? record with
        | none => exact .nil
        | some t =>
            obtain ⟨id, -, hid⟩ := Option.bind_eq_some_iff.1 ht
            exact (hblocks t (List.mem_of_getElem? hid)).map_overrideField owner

/-- In every state that a walk passes the fields of the structs stand in blocks. -/
theorem Grown.blocks {c : Catalog} {known : RecordDecl → Prop} {s : WalkState}
    {frames : List Frame} (h : Grown c known s frames) :
    ∀ t ∈ s.graph.structs, Blocks s.graph t.fields := by
  refine h.forall_structs (motive := fun g _ => Blocks g) (fun _ _ => .nil)
    (fun _ _ _ _ hkeeps hblocks => hblocks.of_keepsPatterns hkeeps)
    fun s frames frame h _ hmet hblocks => ?_
  exact .flatMap fun step hstep => blocks_finishedFields h.indexed
    (fun t ht hpattern => h.fields_of_presenceOnly ht hpattern) hblocks
    fun name hname _ => hmet name (mem_references.2 ⟨step, hstep, hname⟩)

end RecordSchema.Reflection
