import Mathlib.Logic.Function.Iterate
import RecordSchema.Proofs.Reflection.Pattern

/-!
# Exact and exclusive detection

Which pattern a declaration has can be told from the fields that take part in documents under their
own record: how many of them are character data, and whether the others are attributes.  No
declaration could have two patterns.
-/

namespace RecordSchema

namespace TypeExpr

theorem stripOptional_iterate_optional (n : Nat) (ty : TypeExpr) :
    (optional^[n] ty).stripOptional = ty.stripOptional := by
  induction n with
  | zero => rfl
  | succ n ih => rw [Function.iterate_succ_apply', stripOptional, ih]

theorem exists_eq_iterate_optional : ∀ ty : TypeExpr, ∃ n, ty = optional^[n] ty.stripOptional
  | .optional inner => by
      obtain ⟨n, hn⟩ := inner.exists_eq_iterate_optional
      refine ⟨n + 1, ?_⟩
      rw [Function.iterate_succ_apply', stripOptional, ← hn]
  | .scalar _ | .named _ | .inline _ | .list _ => ⟨0, rfl⟩

/-- The type is a scalar inside any number of optional wrappers. -/
theorem isSome_scalar?_iff {ty : TypeExpr} :
    ty.scalar?.isSome = true ↔ ∃ n kind, ty = optional^[n] (.scalar kind) := by
  rw [Option.isSome_iff_exists]
  constructor
  · rintro ⟨kind, hkind⟩
    obtain ⟨n, hn⟩ := ty.exists_eq_iterate_optional
    rw [scalar?_eq_some_iff.1 hkind] at hn
    exact ⟨n, kind, hn⟩
  · rintro ⟨n, kind, rfl⟩
    exact ⟨kind, scalar?_eq_some_iff.2 (stripOptional_iterate_optional n _)⟩

end TypeExpr

namespace Reflection

open Schema (AttributeInfo StructPattern ValueWithUnit)

variable {f : FieldDecl} {fields : List FieldDecl} {p : ValueWithUnit}

/-! ## Fields that take part -/

/-- The field can be seen, is a field of the record itself, and a document has a node for it. -/
structure Participates (f : FieldDecl) : Prop where
  exported : f.exported = true
  own : f.embedded = false
  tagged : ∃ tag, f.tag = some tag ∧ tag.node ≠ .ignored

theorem participates_iff : Participates f ↔ (f.isSerialized && !f.embedded) = true := by
  rw [FieldDecl.isSerialized, Bool.and_eq_true, Bool.and_eq_true, Bool.not_eq_true',
    Option.any_eq_true]
  simp only [bne_iff_ne]
  exact ⟨fun h => ⟨⟨h.exported, h.tagged⟩, h.own⟩, fun h => ⟨h.1.1, h.2, h.1.2⟩⟩

instance : DecidablePred Participates := fun _ => decidable_of_iff _ participates_iff.symm

theorem ownSerialized_eq_filter (fields : List FieldDecl) :
    ownSerialized fields = fields.filter (Participates ·) :=
  List.filter_congr fun f _ => by
    rw [Bool.eq_iff_iff, decide_eq_true_iff, participates_iff]

theorem valueWithUnit?_congr {fields' : List FieldDecl}
    (h : fields.filter (Participates ·) = fields'.filter (Participates ·)) :
    valueWithUnit? fields = valueWithUnit? fields' := by
  rw [valueWithUnit?, ownSerialized_eq_filter, h, ← ownSerialized_eq_filter, ← valueWithUnit?]

/-! ## The criterion -/

/-- Exactly one of the fields is character data and the others are attributes, all of them scalars
inside optional wrappers. -/
structure IsValueAmongAttributes (fields : List FieldDecl) : Prop where
  value : fields.countP (·.node? = some .charData) = 1
  nodes : ∀ f ∈ fields, f.node? = some .charData ∨ f.node? = some .attr
  scalars : ∀ f ∈ fields, ∃ n kind, f.ty = TypeExpr.optional^[n] (.scalar kind)

theorem exists_declaresAttribute (hnode : f.node? = some .attr)
    (hscalar : f.ty.scalar?.isSome = true) : ∃ a, DeclaresAttribute a f := by
  obtain ⟨tag, htag, -⟩ := Option.map_eq_some_iff.1 hnode
  obtain ⟨kind, hkind⟩ := Option.isSome_iff_exists.1 hscalar
  exact ⟨⟨f.name, tag.name, kind, f.validValues⟩, rfl, hnode, by rw [htag, Option.map_some], hkind,
    rfl⟩

theorem exists_declaresAttributes
    (h : ∀ f ∈ fields, f.node? = some .attr ∧ f.ty.scalar?.isSome = true) :
    ∃ attributes, List.Forall₂ DeclaresAttribute attributes fields := by
  induction fields with
  | nil => exact ⟨[], .nil⟩
  | cons f fields ih =>
      obtain ⟨⟨hnode, hscalar⟩, hrest⟩ := List.forall_mem_cons.1 h
      obtain ⟨a, ha⟩ := exists_declaresAttribute hnode hscalar
      obtain ⟨attributes, hattributes⟩ := ih hrest
      exact ⟨a :: attributes, .cons ha hattributes⟩

theorem node?_of_declaresAttributes {attributes : List AttributeInfo}
    (h : List.Forall₂ DeclaresAttribute attributes fields) :
    ∀ f ∈ fields, f.node? = some .attr := by
  induction h with
  | nil => simp
  | cons ha _ ih => exact List.forall_mem_cons.2 ⟨ha.node, ih⟩

/-- There is a pattern that the fields declare if and only if they meet the criterion. -/
theorem exists_declaresValueWithUnit_iff :
    (∃ p, DeclaresValueWithUnit p fields) ↔ IsValueAmongAttributes fields := by
  constructor
  · rintro ⟨p, h⟩
    have hscalars : ∀ f ∈ fields, ∃ n kind, f.ty = TypeExpr.optional^[n] (.scalar kind) :=
      fun f hf => TypeExpr.isSome_scalar?_iff.1 (h.isSome_scalar? hf)
    obtain ⟨front, value, back, rfl, hvalue, hattributes⟩ := h
    have hnodes := node?_of_declaresAttributes hattributes
    have hnone : (front ++ back).countP (·.node? = some .charData) = 0 :=
      List.countP_eq_zero.2 fun f hf => by rw [hnodes f hf]; decide
    have hperm : (front ++ value :: back).Perm (value :: (front ++ back)) := List.perm_middle
    refine ⟨?_, fun f hf => ?_, hscalars⟩
    · rw [hperm.countP_eq, List.countP_cons, hnone, Nat.zero_add,
        if_pos (decide_eq_true hvalue.node)]
    · rcases List.mem_cons.1 (hperm.mem_iff.1 hf) with rfl | hf
      · exact .inl hvalue.node
      · exact .inr (hnodes f hf)
  · intro h
    have hscalar {f : FieldDecl} (hf : f ∈ fields) : f.ty.scalar?.isSome = true :=
      TypeExpr.isSome_scalar?_iff.2 (h.scalars f hf)
    obtain ⟨value, hmem, hvalue⟩ := List.countP_pos_iff.1 (h.value ▸ Nat.one_pos)
    obtain ⟨kind, hkind⟩ := Option.isSome_iff_exists.1 (hscalar hmem)
    obtain ⟨front, back, rfl⟩ := List.append_of_mem hmem
    have hperm : (front ++ value :: back).Perm (value :: (front ++ back)) := List.perm_middle
    -- there is no room for a second value
    have hcount := h.value
    rw [hperm.countP_eq, List.countP_cons, if_pos hvalue, Nat.add_eq_right,
      List.countP_eq_zero] at hcount
    obtain ⟨attributes, hattributes⟩ := exists_declaresAttributes fun f (hf : f ∈ front ++ back) =>
      have hf' := hperm.mem_iff.2 (List.mem_cons_of_mem value hf)
      ⟨(h.nodes f hf').resolve_left (by simpa using hcount f hf), hscalar hf'⟩
    exact ⟨⟨value.name, kind, attributes⟩, front, value, back, rfl,
      ⟨rfl, of_decide_eq_true hvalue, hkind⟩, hattributes⟩

/-! ## Exclusion -/

theorem isPresenceOnly_iff : isPresenceOnly fields = true ↔ ∀ f ∈ fields, f.exported = false := by
  rw [isPresenceOnly, Bool.not_eq_true', List.any_eq_false]
  simp only [Bool.not_eq_true]

/-- A value with attributes has a field that can be seen. -/
theorem IsValueAmongAttributes.exists_exported
    (h : IsValueAmongAttributes (fields.filter (Participates ·))) :
    ∃ f ∈ fields, f.exported = true := by
  have hpos : 0 < (fields.filter (Participates ·)).countP (·.node? = some .charData) := by
    rw [h.value]
    exact Nat.one_pos
  obtain ⟨f, hf, -⟩ := List.countP_pos_iff.1 hpos
  obtain ⟨hmem, hparticipates⟩ := List.mem_filter.1 hf
  exact ⟨f, hmem, (of_decide_eq_true hparticipates).exported⟩

/-- No declaration has a value with attributes and nothing that can be seen. -/
theorem not_isValueAmongAttributes_of_presenceOnly (h : ∀ f ∈ fields, f.exported = false) :
    ¬IsValueAmongAttributes (fields.filter (Participates ·)) := by
  intro hvalue
  obtain ⟨f, hf, hexported⟩ := hvalue.exists_exported
  exact Bool.false_ne_true ((h f hf).symm.trans hexported)

theorem isSome_valueWithUnit?_iff :
    (valueWithUnit? fields).isSome = true ↔
      IsValueAmongAttributes (fields.filter (Participates ·)) := by
  rw [← exists_declaresValueWithUnit_iff, ← ownSerialized_eq_filter, Option.isSome_iff_exists]
  exact exists_congr fun _ => valueWithUnit?_eq_some_iff

theorem valueWithUnit?_eq_none_iff :
    valueWithUnit? fields = none ↔
      ¬IsValueAmongAttributes (fields.filter (Participates ·)) := by
  rw [← isSome_valueWithUnit?_iff, Option.not_isSome_iff_eq_none]

/-- The checks could be made in the other order. -/
theorem structPattern_eq_presenceOnly_first (fields : List FieldDecl) :
    structPattern fields =
      if isPresenceOnly fields then .presenceOnly
      else (valueWithUnit? fields).elim .none .valueWithUnit := by
  rw [structPattern]
  split_ifs with hpresence
  · rw [valueWithUnit?_eq_none_iff.2
      (not_isValueAmongAttributes_of_presenceOnly (isPresenceOnly_iff.1 hpresence))]
  · cases valueWithUnit? fields with
    | none => rfl
    | some p => rfl

theorem structPattern_eq_presenceOnly_iff :
    structPattern fields = .presenceOnly ↔ ∀ f ∈ fields, f.exported = false := by
  rw [structPattern_eq_presenceOnly_first, ← isPresenceOnly_iff]
  cases isPresenceOnly fields with
  | true => simp
  | false => cases valueWithUnit? fields <;> simp

theorem structPattern_eq_none_iff :
    structPattern fields = .none ↔
      ¬IsValueAmongAttributes (fields.filter (Participates ·)) ∧
        ¬∀ f ∈ fields, f.exported = false := by
  rw [← valueWithUnit?_eq_none_iff, ← isPresenceOnly_iff, structPattern]
  cases valueWithUnit? fields with
  | none => cases isPresenceOnly fields <;> simp
  | some p => simp

theorem valueWithUnit?_insert {others : List FieldDecl} (front back : List FieldDecl)
    (h : ∀ f ∈ others, ¬Participates f) :
    valueWithUnit? (front ++ others ++ back) = valueWithUnit? (front ++ back) := by
  have hnone : others.filter (Participates ·) = [] :=
    List.filter_eq_nil_iff.2 fun f hf => by simpa using h f hf
  refine valueWithUnit?_congr ?_
  rw [List.filter_append, List.filter_append, hnone, List.append_nil, List.filter_append]

/-- The fields that take part decide whether a declaration is a value with attributes, and the
pattern names them in their order; it is a mere presence just when it has nothing that can be seen,
and has no pattern otherwise.  The two exclude each other, and fields that do not take part make no
difference to a value, wherever they stand. -/
theorem structPattern_detects (fields : List FieldDecl) :
    ((∃ p, structPattern fields = .valueWithUnit p) ↔
      IsValueAmongAttributes (fields.filter (Participates ·))) ∧
    (∀ p, structPattern fields = .valueWithUnit p ↔
      DeclaresValueWithUnit p (fields.filter (Participates ·))) ∧
    (structPattern fields = .presenceOnly ↔ ∀ f ∈ fields, f.exported = false) ∧
    (structPattern fields = .none ↔
      ¬IsValueAmongAttributes (fields.filter (Participates ·)) ∧
        ¬∀ f ∈ fields, f.exported = false) ∧
    ¬(IsValueAmongAttributes (fields.filter (Participates ·)) ∧
      ∀ f ∈ fields, f.exported = false) ∧
    structPattern fields =
      (if isPresenceOnly fields then .presenceOnly
        else (valueWithUnit? fields).elim .none .valueWithUnit) ∧
    ∀ front others back, fields = front ++ others ++ back → (∀ f ∈ others, ¬Participates f) →
      valueWithUnit? fields = valueWithUnit? (front ++ back) := by
  have hvalue (p : ValueWithUnit) : structPattern fields = .valueWithUnit p ↔
      DeclaresValueWithUnit p (fields.filter (Participates ·)) := by
    rw [structPattern_eq_valueWithUnit_iff, ownSerialized_eq_filter]
  refine ⟨?_, hvalue, structPattern_eq_presenceOnly_iff, structPattern_eq_none_iff, ?_,
    structPattern_eq_presenceOnly_first fields, ?_⟩
  · rw [← exists_declaresValueWithUnit_iff]
    exact exists_congr hvalue
  · rintro ⟨hvalue, hpresence⟩
    exact not_isValueAmongAttributes_of_presenceOnly hpresence hvalue
  · rintro front others back rfl h
    exact valueWithUnit?_insert front back h

/-- Fields of a record that no document shows, each for a reason of its own. -/
def unseenFields : List FieldDecl :=
  [{ name := "Cache", ty := .scalar .string },
   { name := "Raw", ty := .scalar .string, tag := some { name := "", node := .ignored } },
   { name := "hidden", ty := .scalar .string, tag := some { name := "hidden", node := .element }
     exported := false },
   { name := "Slots", ty := .named "Slots", tag := some { name := "slots", node := .element }
     embedded := true }]

/-- An amount of memory is a value with its unit, with and without fields that no document shows. -/
theorem structPattern_detects_memory :
    let front : List FieldDecl :=
      [{ name := "Value", ty := .optional (.scalar .uint)
         tag := some { name := "", node := .charData } }]
    let back : List FieldDecl :=
      [{ name := "Unit", ty := .scalar .string, tag := some { name := "unit", node := .attr } }]
    IsValueAmongAttributes ((front ++ unseenFields ++ back).filter (Participates ·)) ∧
      DeclaresValueWithUnit ⟨"Value", .uint, [{ name := "Unit", xmlName := "unit", ty := .string }]⟩
        ((front ++ unseenFields ++ back).filter (Participates ·)) ∧
      valueWithUnit? (front ++ unseenFields ++ back) = valueWithUnit? (front ++ back) := by
  intro front back
  obtain ⟨hcriterion, hvalue, -, -, -, -, hinsert⟩ :=
    structPattern_detects (front ++ unseenFields ++ back)
  have hpattern : structPattern (front ++ unseenFields ++ back) =
      .valueWithUnit ⟨"Value", .uint, [{ name := "Unit", xmlName := "unit", ty := .string }]⟩ := rfl
  exact ⟨hcriterion.1 ⟨_, hpattern⟩, (hvalue _).1 hpattern,
    hinsert front unseenFields back rfl (by decide)⟩

end Reflection

end RecordSchema
