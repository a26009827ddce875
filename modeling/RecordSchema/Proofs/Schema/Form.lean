import RecordSchema.Proofs.Schema.Index
import RecordSchema.Reflection.Expansion

/-!
# The forms of fields

A field of a finished struct has one of eight forms, each with its own value type, pattern and
target.  A form reads no more of the target than its pattern, and that an element without content
has no fields, so a field keeps its form while the graph grows.
-/

namespace RecordSchema.Schema

open Reflection (flattenSeparator)

/-- The forms of fields. -/
inductive Form where
  /-- A reference that leads back. -/
  | cycle
  | scalar
  /-- A list of scalars or of lists. -/
  | list
  | object
  | objectList
  /-- Whether an element without content is there. -/
  | presence
  | flattenedValue
  | flattenedAttribute (attr : String)
deriving DecidableEq, Repr

/-- What a field of a form is like. -/
inductive HasForm (g : Graph) (f : Field) : Form → Prop
  | cycle (link : f.isCycle = true) (pattern : f.pattern = .plain) (nested : f.isNested = false)
      (flag : f.stringToBool = none) (element : f.elementType = none) : HasForm g f .cycle
  | scalar (link : f.link = .none) (pattern : f.pattern = .plain) (nested : f.isNested = false)
      (list : f.isList = false) (value : f.valueType ∈ [.string, .int64, .float64, .bool])
      (flag : f.stringToBool.isSome = true → f.valueType = .bool) : HasForm g f .scalar
  | list {element : ValueType} (link : f.link = .none) (pattern : f.pattern = .plain)
      (nested : f.isNested = false) (list : f.isList = true) (value : f.valueType = .list)
      (element_eq : f.elementType = some element) (element_ne : element ≠ .object) :
      HasForm g f .list
  | object {t : Struct} (target : g.target? f = some t) (pattern : f.pattern = .plain)
      (nested : f.isNested = true) (list : f.isList = false) (value : f.valueType = .object)
      (plain : t.pattern = .none) : HasForm g f .object
  | objectList {t : Struct} (target : g.target? f = some t) (pattern : f.pattern = .plain)
      (nested : f.isNested = true) (list : f.isList = true) (value : f.valueType = .list)
      (element : f.elementType = some .object) : HasForm g f .objectList
  | presence {t : Struct} (target : g.target? f = some t) (pattern : f.pattern = .presenceBoolean)
      (nested : f.isNested = false) (list : f.isList = false) (value : f.valueType = .bool)
      (plain : t.pattern = .presenceOnly) (fields : t.fields = []) : HasForm g f .presence
  | flattenedValue {t : Struct} {p : ValueWithUnit} (target : g.target? f = some t)
      (pattern : f.pattern = .flattenedValue) (nested : f.isNested = false)
      (list : f.isList = false) (plain : t.pattern = .valueWithUnit p)
      (value : f.valueType = .ofScalar p.valueType) : HasForm g f .flattenedValue
  | flattenedAttribute {t : Struct} {p : ValueWithUnit} {a : AttributeInfo} {base : String}
      (target : g.target? f = some t) (pattern : f.pattern = .flattenedAttribute a.xmlName)
      (nested : f.isNested = false) (list : f.isList = false)
      (plain : t.pattern = .valueWithUnit p) (mem : a ∈ p.attributes)
      (value : f.valueType = .ofScalar a.ty)
      (name : f.outputName = base ++ flattenSeparator ++ Text.snakeCase a.xmlName)
      (attr : f.isAttr = true) (optionality : f.optionality = .optional)
      (planHint : f.planHint = none) (intent : f.preserveUserIntent = true)
      (empty : f.omitEmpty = true) : HasForm g f (.flattenedAttribute a.xmlName)

/-- The only form a field can have. -/
def Field.form (f : Field) : Form :=
  match f.pattern, f.link with
  | .presenceBoolean, _ => .presence
  | .flattenedValue, _ => .flattenedValue
  | .flattenedAttribute attr, _ => .flattenedAttribute attr
  | _, .none => if f.isList then .list else .scalar
  | _, .cycle _ => .cycle
  | _, .struct _ => if f.isList then .objectList else .object

variable {g g' : Graph} {f : Field} {form form' : Form}

namespace HasForm

theorem eq_form (h : HasForm g f form) : form = f.form := by
  have hstruct {t : Struct} (ht : g.target? f = some t) : ∃ id, f.link = .struct id := by
    obtain ⟨id, hid, -⟩ := Option.bind_eq_some_iff.1 ht
    rw [Field.target?] at hid
    split at hid
    · exact ⟨_, ‹_›⟩
    · cases hid
  cases h with
  | cycle link pattern =>
      rw [Field.isCycle, Field.cycleTrace?] at link
      split at link
      · rename_i hlink
        rw [Field.form, pattern, hlink]
      · cases link
  | scalar link pattern _ list =>
      rw [Field.form, pattern, link]
      exact (if_neg (by rw [list]; exact Bool.false_ne_true)).symm
  | list link pattern _ list =>
      rw [Field.form, pattern, link]
      exact (if_pos list).symm
  | object target pattern _ list =>
      obtain ⟨id, hlink⟩ := hstruct target
      rw [Field.form, pattern, hlink]
      exact (if_neg (by rw [list]; exact Bool.false_ne_true)).symm
  | objectList target pattern _ list =>
      obtain ⟨id, hlink⟩ := hstruct target
      rw [Field.form, pattern, hlink]
      exact (if_pos list).symm
  | presence _ pattern => rw [Field.form, pattern]
  | flattenedValue _ pattern => rw [Field.form, pattern]
  | flattenedAttribute _ pattern => rw [Field.form, pattern]

/-- No field has two forms. -/
theorem unique (h : HasForm g f form) (h' : HasForm g f form') : form = form' :=
  h.eq_form.trans h'.eq_form.symm

/-- A field of one of the forms has been taken apart if it had to be. -/
theorem not_marker (h : HasForm g f form) : f.isFlattenMarker = false := by
  rw [Field.isFlattenMarker]
  cases h <;> simp_all

/-- Only objects and lists of objects are opened. -/
theorem nestedTarget?_isSome_iff (h : HasForm g f form) :
    f.nestedTarget?.isSome = true ↔ form = .object ∨ form = .objectList := by
  have hclosed (hnested : f.isNested = false) : ¬f.nestedTarget?.isSome = true := by
    simp [Field.nestedTarget?, hnested]
  have hopen {t : Struct} (htarget : g.target? f = some t) (hnested : f.isNested = true) :
      f.nestedTarget?.isSome = true := by
    obtain ⟨id, hid, -⟩ := Option.bind_eq_some_iff.1 htarget
    rw [Field.nestedTarget?, if_pos hnested, hid, Option.isSome_some]
  cases h with
  | cycle _ _ nested => simpa using hclosed nested
  | scalar _ _ nested => simpa using hclosed nested
  | list _ _ nested => simpa using hclosed nested
  | object target _ nested => exact iff_of_true (hopen target nested) (.inl rfl)
  | objectList target _ nested => exact iff_of_true (hopen target nested) (.inr rfl)
  | presence _ _ nested => simpa using hclosed nested
  | flattenedValue _ _ nested => simpa using hclosed nested
  | flattenedAttribute _ _ nested => simpa using hclosed nested

end HasForm

/-! ## Graphs that grow -/

/-- The structs of one graph are in the other, with their patterns; elements without content stay
without fields. -/
def Graph.KeepsPatterns (g g' : Graph) : Prop :=
  ∀ id t, g.get? id = some t → ∃ t', g'.get? id = some t' ∧ t'.pattern = t.pattern ∧
    (t.pattern = .presenceOnly → t.fields = [] → t'.fields = [])

/-- A field keeps its form while the graph grows. -/
theorem HasForm.of_keepsPatterns (h : HasForm g f form) (hkeeps : g.KeepsPatterns g') :
    HasForm g' f form := by
  have htarget {t : Struct} (ht : g.target? f = some t) : ∃ t', g'.target? f = some t' ∧
      t'.pattern = t.pattern ∧ (t.pattern = .presenceOnly → t.fields = [] → t'.fields = []) := by
    obtain ⟨id, hid, ht⟩ := Option.bind_eq_some_iff.1 ht
    obtain ⟨t', ht', hpattern, hfields⟩ := hkeeps id t ht
    exact ⟨t', by rw [Graph.target?, hid, Option.bind_some, ht'], hpattern, hfields⟩
  cases h with
  | cycle link pattern nested flag element => exact .cycle link pattern nested flag element
  | scalar link pattern nested list value flag =>
      exact .scalar link pattern nested list value flag
  | list link pattern nested list value element_eq element_ne =>
      exact .list link pattern nested list value element_eq element_ne
  | object target pattern nested list value plain =>
      obtain ⟨t', ht', hpattern, -⟩ := htarget target
      exact .object ht' pattern nested list value (hpattern.trans plain)
  | objectList target pattern nested list value element =>
      obtain ⟨t', ht', -, -⟩ := htarget target
      exact .objectList ht' pattern nested list value element
  | presence target pattern nested list value plain fields =>
      obtain ⟨t', ht', hpattern, hfields⟩ := htarget target
      exact .presence ht' pattern nested list value (hpattern.trans plain) (hfields plain fields)
  | flattenedValue target pattern nested list plain value =>
      obtain ⟨t', ht', hpattern, -⟩ := htarget target
      exact .flattenedValue ht' pattern nested list (hpattern.trans plain) value
  | flattenedAttribute target pattern nested list plain mem value name attr optionality planHint
      intent empty =>
      obtain ⟨t', ht', hpattern, -⟩ := htarget target
      exact .flattenedAttribute ht' pattern nested list (hpattern.trans plain) mem value name attr
        optionality planHint intent empty

/-- Every field of the graph has a form. -/
def Graph.Formed (g : Graph) : Prop :=
  ∀ t ∈ g.structs, ∀ f ∈ t.fields, ∃ form, HasForm g f form

end RecordSchema.Schema
