import Mathlib.Data.List.Basic
import Mathlib.Data.List.Induction
import RecordSchema.Reflection.Walk

/-!
# Overrides and expansion

The override rules that match a field decide its optionality and its planning hint and nothing else,
and a second pass changes nothing that the first has not.  So finishing the fields of a struct
finishes each of them by itself: a marker is taken apart, any other field is overridden.
-/

namespace RecordSchema.Reflection

open Schema (Field Graph Optionality PlanHint)

variable {g : Graph} {owner : String} {f f' : Field}

/-! ## Rules in order -/

/-- A rule looks at the output name of a field and whether it is an attribute of a value. -/
theorem OverrideRule.matchesField_congr (r : OverrideRule) (hname : f'.outputName = f.outputName)
    (hattr : f'.flattenedAttribute? = f.flattenedAttribute?) :
    r.matchesField owner f' = r.matchesField owner f := by
  rw [matchesField, matchesField, hname, hattr]

/-- The rules that match a field, in the order in which they apply. -/
def matchingRules (rules : List OverrideRule) (owner : String) (f : Field) : List OverrideRule :=
  rules.filter (·.matchesField owner f)

theorem matchingRules_congr (rules : List OverrideRule) (hname : f'.outputName = f.outputName)
    (hattr : f'.flattenedAttribute? = f.flattenedAttribute?) :
    matchingRules rules owner f' = matchingRules rules owner f :=
  List.filter_congr fun r _ => r.matchesField_congr hname hattr

/-- The optionality that some rules decide on: that of the last one. -/
def decidedOptionality (rules : List OverrideRule) (f : Field) : Optionality :=
  (rules.getLast?.map OverrideRule.optionality).getD f.optionality

/-- The planning hint that some rules decide on: that of the last one that has any. -/
def decidedHint (rules : List OverrideRule) (f : Field) : Option PlanHint :=
  rules.reverse.findSome? OverrideRule.planHint <|> f.planHint

theorem decidedOptionality_concat (rules : List OverrideRule) (r : OverrideRule) (f : Field) :
    decidedOptionality (rules ++ [r]) f = r.optionality := by
  rw [decidedOptionality, List.getLast?_concat]
  rfl

theorem decidedHint_concat (rules : List OverrideRule) (r : OverrideRule) (f : Field) :
    decidedHint (rules ++ [r]) f = (r.planHint <|> decidedHint rules f) := by
  rw [decidedHint, decidedHint, List.reverse_concat, List.findSome?_cons]
  cases r.planHint <;> rfl

theorem foldl_apply (rules : List OverrideRule) (f : Field) :
    rules.foldl (fun f r => r.apply f) f =
      { f with optionality := decidedOptionality rules f, planHint := decidedHint rules f } := by
  induction rules using List.reverseRecOn with
  | nil => rfl
  | append_singleton rules r ih =>
      rw [List.foldl_concat, ih, OverrideRule.apply, decidedOptionality_concat, decidedHint_concat]

theorem foldl_matching (rules : List OverrideRule) (owner : String) (f : Field) :
    rules.foldl (fun f r => if r.matchesField owner f then r.apply f else f) f =
      (matchingRules rules owner f).foldl (fun f r => r.apply f) f := by
  induction rules generalizing f with
  | nil => rfl
  | cons r rest ih =>
      rw [List.foldl_cons, matchingRules, List.filter_cons]
      split
      · rw [ih, List.foldl_cons]
        exact congrArg _ (matchingRules_congr rest rfl rfl)
      · rw [ih]
        rfl

/-- Overriding sets the optionality and the planning hint of a field. -/
theorem overrideField_eq (owner : String) (f : Field) :
    overrideField owner f =
      { f with
        optionality := decidedOptionality (matchingRules overrideRules owner f) f
        planHint := decidedHint (matchingRules overrideRules owner f) f } := by
  rw [overrideField, foldl_matching, foldl_apply]

/-- Overriding leaves everything else in a field as it is. -/
theorem overrideField_same (owner : String) (f : Field) :
    ∃ optionality planHint, overrideField owner f = { f with optionality, planHint } :=
  ⟨_, _, overrideField_eq owner f⟩

theorem overrideField_link (owner : String) (f : Field) :
    (overrideField owner f).link = f.link := by
  rw [overrideField_eq]

theorem overrideField_outputName (owner : String) (f : Field) :
    (overrideField owner f).outputName = f.outputName := by
  rw [overrideField_eq]

theorem overrideField_flattenedAttribute? (owner : String) (f : Field) :
    (overrideField owner f).flattenedAttribute? = f.flattenedAttribute? := by
  rw [overrideField_eq]
  rfl

theorem overrideField_isFlattenMarker (owner : String) (f : Field) :
    (overrideField owner f).isFlattenMarker = f.isFlattenMarker := by
  rw [overrideField_eq]
  rfl

/-- Rules that are applied again change nothing. -/
@[simp] theorem overrideField_idem (owner : String) (f : Field) :
    overrideField owner (overrideField owner f) = overrideField owner f := by
  have hmatching : matchingRules overrideRules owner (overrideField owner f) =
      matchingRules overrideRules owner f :=
    matchingRules_congr overrideRules (overrideField_outputName owner f)
      (overrideField_flattenedAttribute? owner f)
  rw [overrideField_eq owner (overrideField owner f), hmatching, overrideField_eq owner f]
  generalize matchingRules overrideRules owner f = rules
  simp only [decidedOptionality, decidedHint]
  cases rules.getLast? <;> cases rules.reverse.findSome? OverrideRule.planHint <;> rfl

/-! ## Values and their attributes -/

/-- The value of a marker is overridden as the marker is, so that it is enough to do it once. -/
theorem overrideField_valueField (owner : String) (p : Schema.ValueWithUnit)
    (h : f.isFlattenMarker = true) :
    overrideField owner (valueField (overrideField owner f) p) =
      overrideField owner (valueField f p) := by
  have hpattern : f.pattern = .flattenValueWithUnit := by
    rw [Field.isFlattenMarker] at h
    exact beq_iff_eq.1 h
  have hattr : f.flattenedAttribute? = none := by
    rw [Field.flattenedAttribute?, hpattern]
  have hvalue : matchingRules overrideRules owner (valueField f p) =
      matchingRules overrideRules owner f := matchingRules_congr overrideRules rfl hattr.symm
  have hname : (valueField (overrideField owner f) p).outputName = f.outputName := by
    rw [valueField, overrideField_outputName]
  have hagain : matchingRules overrideRules owner (valueField (overrideField owner f) p) =
      matchingRules overrideRules owner f := matchingRules_congr overrideRules hname hattr.symm
  rw [overrideField_eq owner (valueField _ p), hagain, overrideField_eq owner (valueField f p),
    hvalue, overrideField_eq owner f]
  generalize matchingRules overrideRules owner f = rules
  simp only [valueField, decidedOptionality, decidedHint]
  cases rules.getLast? <;> cases rules.reverse.findSome? OverrideRule.planHint <;> rfl

theorem attributeField_overrideField (owner : String) (f : Field) (a : Schema.AttributeInfo) :
    attributeField (overrideField owner f) a = attributeField f a := by
  rw [overrideField_eq]
  rfl

/-- The rules that hold everywhere are about names of one word. -/
theorem separator_notMem_of_structs_eq_nil :
    ∀ r ∈ overrideRules, r.structs = [] → ∀ name ∈ r.fields, '_' ∉ name.toList := by
  decide

/-- No rule matches an attribute that was taken from a value: its output name has a separator in it,
and the rules for single structs pass it over. -/
theorem overrideField_of_flattenedAttribute {attr base rest : String}
    (hpattern : f.pattern = .flattenedAttribute attr)
    (hname : f.outputName = base ++ flattenSeparator ++ rest) : overrideField owner f = f := by
  have hnone : matchingRules overrideRules owner f = [] := by
    refine List.filter_eq_nil_iff.2 fun r hr hmatch => ?_
    rw [OverrideRule.matchesField, Bool.and_eq_true, Bool.or_eq_true, Bool.and_eq_true,
      Field.flattenedAttribute?, hpattern, hname] at hmatch
    rcases hmatch with ⟨hcontains, hstructs | ⟨-, hplain⟩⟩
    · refine separator_notMem_of_structs_eq_nil r hr (List.isEmpty_iff.1 hstructs) _
        (List.contains_iff_mem.1 hcontains) ?_
      simp [flattenSeparator]
    · cases hplain
  rw [overrideField_eq, hnone]
  rfl

theorem overrideField_attributeField (owner : String) (f : Field) (a : Schema.AttributeInfo) :
    overrideField owner (attributeField f a) = attributeField f a := by
  have hpattern : (attributeField f a).pattern = .flattenedAttribute a.xmlName := by
    rw [attributeField]
  have hname : (attributeField f a).outputName =
      f.outputName ++ flattenSeparator ++ Text.snakeCase a.xmlName := by
    rw [attributeField]
  exact overrideField_of_flattenedAttribute hpattern hname

/-! ## Finished fields -/

/-- What becomes of a field in the struct `owner`. -/
def finishField (g : Graph) (owner : String) (f : Field) : List Field :=
  (expandField g (overrideField owner f)).map (overrideField owner)

theorem expandField_of_not_marker (h : f.isFlattenMarker = false) : expandField g f = [f] := by
  rw [expandField, expansion?, if_neg (by rw [h]; exact Bool.false_ne_true)]

theorem finishField_of_not_marker (h : f.isFlattenMarker = false) :
    finishField g owner f = [overrideField owner f] := by
  rw [finishField,
    expandField_of_not_marker ((overrideField_isFlattenMarker owner f).trans h), List.map_singleton,
    overrideField_idem]

theorem expansion?_overrideField (g : Graph) (owner : String) (f : Field) :
    expansion? g (overrideField owner f) = expansion? g f := by
  rw [expansion?, expansion?, overrideField_isFlattenMarker, Graph.target?, Field.target?,
    overrideField_link]
  rfl

/-- What is overridden before it is taken apart need not be. -/
theorem finishField_eq (g : Graph) (owner : String) (f : Field) :
    finishField g owner f = (expandField g f).map (overrideField owner) := by
  rw [finishField, expandField, expandField, expansion?_overrideField]
  cases hexpansion : expansion? g f with
  | none => rw [List.map_singleton, List.map_singleton, overrideField_idem]
  | some p =>
      have hmarker : f.isFlattenMarker = true := by
        rw [expansion?] at hexpansion
        split at hexpansion
        · assumption
        · cases hexpansion
      have hattributes : p.attributes.map (attributeField (overrideField owner f)) =
          p.attributes.map (attributeField f) :=
        List.map_congr_left fun a _ => attributeField_overrideField owner f a
      simp only
      rw [List.map_cons, List.map_cons, overrideField_valueField owner p hmarker, hattributes]

/-- The fields of a struct are finished one by one. -/
theorem finishFields_eq_flatMap (g : Graph) (owner : String) (fields : List Field) :
    finishFields g owner fields = fields.flatMap (finishField g owner) := by
  rw [finishFields, applyOverrides]
  split
  · rw [applyOverrides, expand, List.flatMap_map, List.map_flatMap]
    rfl
  · rename_i hany
    rw [← List.flatMap_singleton' (fields.map _), List.flatMap_map]
    refine List.flatMap_congr fun f hf => (finishField_of_not_marker ?_).symm
    rw [List.any_map, List.any_eq_true, not_exists] at hany
    rw [← overrideField_isFlattenMarker owner f]
    exact Bool.eq_false_iff.2 fun h => hany f ⟨hf, h⟩

/-- Fields that are no markers are overridden and nothing else. -/
theorem flatMap_finishField_of_not_marker {fields : List Field}
    (h : ∀ f ∈ fields, f.isFlattenMarker = false) :
    fields.flatMap (finishField g owner) = fields.map (overrideField owner) := by
  rw [← List.flatMap_singleton' (fields.map _), List.flatMap_map]
  exact List.flatMap_congr fun f hf => finishField_of_not_marker (h f hf)

/-- The fields that take the place of a field refer to what it refers to. -/
theorem link_of_mem_finishField (h : f' ∈ finishField g owner f) : f'.link = f.link := by
  obtain ⟨e, he, rfl⟩ := List.mem_map.1 h
  rw [overrideField_link, ← overrideField_link owner f]
  rw [expandField] at he
  split at he
  · rename_i pattern _
    rcases List.mem_cons.1 he with rfl | ha
    · rw [valueField]
    · obtain ⟨a, -, rfl⟩ := List.mem_map.1 ha
      rw [attributeField]
  · rw [List.mem_singleton.1 he]

/-! ## Whole lists -/

/-- What is expanded and overridden is finished field by field. -/
theorem applyOverrides_expand_eq_flatMap (g : Graph) (owner : String) (fields : List Field) :
    applyOverrides owner (expand g fields) = fields.flatMap (finishField g owner) := by
  rw [applyOverrides, expand, List.map_flatMap]
  refine List.flatMap_congr fun f _ => ?_
  exact (finishField_eq g owner f).symm

/-- Every field gets the optionality of the last rule that matches it and the hint of the last of
these that has one, and nothing else about it changes.  A second pass changes nothing, and a pass
before the expansion does not show after the one behind it; so the fields of a struct are finished
as if they had only been overridden in the end. -/
theorem applyOverrides_settles (g : Graph) (owner : String) (fields : List Field) :
    applyOverrides owner (applyOverrides owner fields) = applyOverrides owner fields ∧
    applyOverrides owner (expand g (applyOverrides owner fields)) =
      applyOverrides owner (expand g fields) ∧
    finishFields g owner fields = applyOverrides owner (expand g fields) ∧
    applyOverrides owner fields = fields.map fun f =>
      { f with
        optionality := decidedOptionality (matchingRules overrideRules owner f) f
        planHint := decidedHint (matchingRules overrideRules owner f) f } := by
  have hfinish (f : Field) :
      finishField g owner (overrideField owner f) = finishField g owner f := by
    rw [finishField, overrideField_idem, ← finishField]
  refine ⟨?_, ?_, ?_, ?_⟩
  · rw [applyOverrides, applyOverrides, List.map_map]
    refine List.map_congr_left fun f _ => ?_
    rw [Function.comp_apply, overrideField_idem]
  · rw [applyOverrides_expand_eq_flatMap, applyOverrides_expand_eq_flatMap, applyOverrides,
      List.flatMap_map]
    exact List.flatMap_congr fun f _ => hfinish f
  · rw [finishFields_eq_flatMap, applyOverrides_expand_eq_flatMap]
  · rw [applyOverrides]
    refine List.map_congr_left fun f _ => ?_
    rw [overrideField_eq]

end RecordSchema.Reflection
