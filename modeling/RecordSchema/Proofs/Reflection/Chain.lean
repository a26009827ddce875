import RecordSchema.Proofs.Catalog.Chain
import RecordSchema.Proofs.Reflection.Detection
import RecordSchema.Proofs.Reflection.OutputName
import RecordSchema.Proofs.Reflection.Reach
import RecordSchema.Proofs.Reflection.Flattening
import RecordSchema.Proofs.Text.SnakeCase

/-!
# Reflected chains

The record that a reflector is asked for first comes under analysis before all others and stands
outermost in their guards.  In a chain each level comes under analysis with all levels in front of
it, so only the reference of the last one leads back, and its trace shows the whole chain.
-/

namespace RecordSchema.Reflection

open Schema (Field Graph Struct StructId)

variable {c : Catalog} {g : Graph} {s : WalkState} {frames : List Frame} {f : Frame}
  {a b : String}

/-! ## Guards -/

/-- A record comes under analysis by itself or under a record that mentions it. -/
theorem Grown.guard_eq (h : Grown c (Declared c) s frames) (hf : f ∈ frames) :
    f.guard.names = [f.name] ∨ ∃ outer ∈ frames, f.guard.names = outer.guard.names ++ [f.name] ∧
      c.Mentions outer.name f.name := by
  induction h with
  | start => cases hf
  | @enter s frames r h _ _ hasked ih =>
      rcases List.mem_append.1 hf with hf | hf
      · rcases ih hf with heq | ⟨outer, houter, heq, hmention⟩
        · exact .inl heq
        · exact .inr ⟨outer, List.mem_append_left _ houter, heq, hmention⟩
      · rw [List.mem_singleton.1 hf]
        by_cases hempty : s.guard.names = []
        · refine .inl ?_
          rw [CycleGuard.names_push, hempty]
          rfl
        · obtain ⟨outer, houter, hnames⟩ := h.exists_frame_of_prefix List.prefix_rfl hempty
          have hguard : outer.guard = s.guard := congrArg CycleGuard.mk hnames
          refine .inr ⟨outer, List.mem_append_left _ houter, ?_, refersTo_iff_mentions.1
            ⟨outer.decl, h.known_decl houter, hasked outer houter hguard⟩⟩
          rw [CycleGuard.names_push, hguard]
          rfl
  | leave _ _ _ _ ih => exact ih hf

/-- Nothing leads to the first struct from another one. -/
theorem LeadsTo.eq_of_first (h : LeadsTo c g a b) (hg : g.Indexed) (hb : g.lookup b = some 0) :
    a = b := by
  rcases Relation.ReflTransGen.cases_tail h with rfl | ⟨_, -, -, i, j, hi, hj, hle⟩
  · rfl
  · rw [hb] at hj
    obtain rfl := Option.some.inj hj
    obtain rfl := Nat.le_zero.1 hle
    rw [hg] at hi hb
    exact Option.some.inj (hi.symm.trans hb)

/-- The first struct leads to all that it reaches. -/
theorem Grown.leadsTo_of_first (h : Grown c (Declared c) s frames) (hguard : s.guard = .empty)
    (ha : s.graph.lookup a = some 0) (hab : c.Reaches a b) : LeadsTo c s.graph a b := by
  have hmem := h.indexed.mem_names_iff.2 ⟨0, ha⟩
  induction hab with
  | refl => exact .refl
  | tail hreach hmention ih =>
      obtain ⟨j, hj⟩ := h.indexed.mem_names_iff.1
        (h.mem_names_of_reaches hguard hmem (hreach.tail hmention))
      exact ih.tail ⟨refersTo_iff_mentions.2 hmention, 0, j, ha, hj, Nat.zero_le j⟩

/-- The first struct stands outermost in its guard, and alone. -/
theorem Grown.guard_eq_singleton_of_first (h : Grown c (Declared c) s frames) (hf : f ∈ frames)
    (hfirst : s.graph.lookup f.name = some 0) : f.guard.names = [f.name] := by
  rcases h.guard_eq hf with heq | ⟨outer, houter, heq, -⟩
  · exact heq
  · have hmem : outer.name ∈ f.guard.names := by
      rw [heq]
      exact List.mem_append_left _ (h.name_mem_guard houter)
    have hname := (h.leadsTo_of_mem_guard hf hmem).eq_of_first h.indexed hfirst
    have hnodup := h.guard_nodup_of_mem hf
    rw [heq, List.nodup_append] at hnodup
    exact absurd hname
      (hnodup.2.2 _ (h.name_mem_guard houter) _ (List.mem_singleton_self _))

/-- What the first struct reaches comes under analysis under a record that mentions it. -/
theorem Grown.exists_outer_of_reaches_first (h : Grown c (Declared c) s frames)
    (hguard : s.guard = .empty) (ha : s.graph.lookup a = some 0) (hf : f ∈ frames)
    (hreach : c.Reaches a f.name) (hne : f.name ≠ a) :
    ∃ outer ∈ frames, f.guard.names = outer.guard.names ++ [f.name] ∧
      c.Mentions outer.name f.name := by
  refine (h.guard_eq hf).resolve_left fun heq => ?_
  have hmem := (h.mem_guard_iff_leadsTo hguard hf (h.indexed.mem_names_iff.2 ⟨0, ha⟩)).2
    (h.leadsTo_of_first hguard ha hreach)
  rw [heq, List.mem_singleton] at hmem
  exact hne hmem.symm

/-- Between calls the struct of a name is told by a frame. -/
theorem Grown.exists_struct (h : Grown c (Declared c) s frames) (hguard : s.guard = .empty)
    (ha : a ∈ s.graph.names) : ∃ f ∈ frames, ∃ t, f.name = a ∧ c.find? a = some f.decl ∧
      s.graph.find? a = some t ∧ t.pattern = structPattern f.decl.fields ∧
      t.fields = f.fieldsIn s.graph := by
  obtain ⟨f, hf, rfl⟩ := h.exists_mem_frame ha
  obtain ⟨id, hid⟩ := List.mem_iff_getElem?.1 hf
  obtain ⟨t, ht⟩ := h.indexed.exists_find?_of_mem_names ha
  have hget := (Graph.find?_eq_get? (h.lookup_eq hid)).symm.trans ht
  exact ⟨f, hf, t, rfl, h.known_decl hf, ht, h.pattern_eq hid hget,
    (h.settled_of_guard_eq_empty hguard hf).fields t ht⟩

/-- A request for a record that is not in the graph gives it the next place. -/
theorem Reflector.id_of_reflect_fresh {r : Reflector} {n : String} {id : StructId}
    (hfresh : r.graph.lookup n = none) (hok : (r.reflect n).1 = .ok id) : id = r.graph.size := by
  have hvisit : (visit r.catalog r.catalog.size n).Ensures r.toWalkState
      (fun id _ => id = r.graph.size) fun _ _ => True := by
    refine Walk.Ensures.visit (fun id hid => ?_) trivial fun room decl _ _ hdecl => ?_
    · rw [hfresh] at hid
      cases hid
    · have hname := (Catalog.mem_of_find?_eq_some hdecl).2
      cases ha : decl.isAnonymous with
      | true => exact (Walk.ensures_walkRecord_of_anonymous ha).2 trivial
      | false =>
          refine (Walk.ensures_walkRecord_of_fresh ha (hname ▸ hfresh)).2 ?_
          rw [Walk.Ensures]
          split <;> trivial
  have hrun := (run_of_ensures hvisit).2
  rw [reflect] at hok
  rwa [hok] at hrun

open Catalog (chain levelAttribute levelChild levelName levelRecord levelSize sizeRecord)

/-! ## Fields of a level -/

section Fields

variable {guard : CycleGuard} {owner : String} {t : Struct}

theorem structPattern_levelRecord (depth width level : Nat) :
    structPattern (levelRecord depth width level).fields = .none := by
  have hmem : levelSize ∈ (levelRecord depth width level).fields := by
    rw [Catalog.fields_levelRecord]
    simp
  cases hpattern : structPattern (levelRecord depth width level).fields with
  | none => rfl
  | presenceOnly => exact absurd (structPattern_eq_presenceOnly_iff.1 hpattern _ hmem) (by decide)
  | valueWithUnit p =>
      have hscalar := (structPattern_eq_valueWithUnit_iff.1 hpattern).isSome_scalar?
        (List.mem_filter.2 ⟨hmem, rfl⟩)
      cases hscalar

/-- The pattern of the size. -/
def sizePattern : Schema.ValueWithUnit :=
  ⟨"Value", .uint64, [{ name := "Unit", xmlName := "unit", ty := .string }]⟩

/-- A field that refers to one record is finished by itself. -/
theorem bodyFields_of_record {d : FieldDecl} {tag : Tag} {name : String}
    (hserialized : d.isSerialized = true) (hplain : d.embedded = false) (htag : d.tag = some tag)
    (hshape : d.ty.shape = .record name) :
    bodyFields g guard owner [d] =
      finishField g owner (fieldOf d tag (.record name) (referent? g guard name)) := by
  obtain ⟨hexported, tag', htag', hnode⟩ := exists_tag_of_isSerialized hserialized
  obtain rfl := Option.some.inj (htag'.symm.trans htag)
  have hreferred : d.ty.shape ≠ .anonymous := by
    intro hanonymous
    rw [hshape] at hanonymous
    cases hanonymous
  rw [bodyFields, bodySteps, bodySteps, List.append_nil, declSteps_eq, if_pos hexported,
    if_neg (by rw [hplain]; exact Bool.false_ne_true), fieldSteps_of_tag htag hnode hreferred,
    hshape, List.flatMap_singleton]
  rfl

theorem bodyFields_levelRecord (g : Graph) (guard : CycleGuard) (owner : String)
    (depth width level : Nat) :
    bodyFields g guard owner (levelRecord depth width level).fields =
      bodyFields g guard owner ((List.range width).map levelAttribute) ++
        (finishField g owner (fieldOf levelSize { name := "size", node := .element }
            (.record "Size") (referent? g guard "Size")) ++
          finishField g owner (fieldOf (levelChild ((level + 1) % depth))
            { name := "child", node := .element } (.record (levelName ((level + 1) % depth)))
            (referent? g guard (levelName ((level + 1) % depth))))) := by
  rw [Catalog.fields_levelRecord, bodyFields_append, bodyFields_cons,
    bodyFields_of_record rfl rfl rfl rfl, bodyFields_of_record rfl rfl rfl rfl]

theorem finishField_of_expansion? {f : Field} {p : Schema.ValueWithUnit}
    (h : expansion? g f = some p) :
    finishField g owner f =
      overrideField owner (valueField f p) :: p.attributes.map (attributeField f) := by
  have hattributes : (p.attributes.map (attributeField f)).map (overrideField owner) =
      p.attributes.map (attributeField f) := by
    rw [List.map_map]
    refine List.map_congr_left fun a _ => ?_
    rw [Function.comp_apply, overrideField_attributeField]
  rw [finishField_eq, expandField, h]
  simp only
  rw [List.map_cons, hattributes]

/-- A reference to a value with attributes becomes the value and its attributes. -/
theorem finishField_of_valueWithUnit {d : FieldDecl} {tag : Tag} {name : String}
    {p : Schema.ValueWithUnit} (hoff : name ∉ guard.names) (ht : g.find? name = some t)
    (hpattern : t.pattern = .valueWithUnit p) :
    finishField g owner (fieldOf d tag (.record name) (referent? g guard name)) =
      overrideField owner
          (valueField (fieldOf d tag (.record name) (referent? g guard name)) p) ::
        p.attributes.map
          (attributeField (fieldOf d tag (.record name) (referent? g guard name))) := by
  refine finishField_of_expansion? ((expansion?_fieldOf d tag (.record name)).trans ?_)
  rw [takenApart?, if_neg fun hc => hoff ((CycleGuard.contains_iff ..).1 hc), ht,
    Option.bind_some, Struct.valueWithUnit?, hpattern]

/-- A reference to a record that is not under analysis leads to its struct. -/
theorem target?_fieldOf {d : FieldDecl} {tag : Tag} {name : String} (hoff : name ∉ guard.names)
    (ht : g.find? name = some t) :
    g.target? (fieldOf d tag (.record name) (referent? g guard name)) = some t := by
  obtain ⟨id, hid, hget⟩ := Option.bind_eq_some_iff.1 ht
  have hlink := link_fieldOf d tag (.record name) (referent? g guard)
  rw [Shape.reference?, Option.bind_some, referent?_of_lookup hoff hid] at hlink
  rw [referent?_of_lookup hoff hid, Graph.target?, Field.target?, hlink]
  exact hget

/-- Two fields show the size of a level and its unit. -/
structure ShowsSize (g : Graph) (size unit : Field) : Prop where
  sizeName : size.outputName = "size"
  unitName : unit.outputName = "size_unit"
  sizePattern : size.pattern = .flattenedValue
  unitPattern : unit.pattern = .flattenedAttribute "unit"
  sizeTarget : (g.target? size).map (·.name) = some "Size"
  unitTarget : (g.target? unit).map (·.name) = some "Size"

/-- The size of a level is taken apart. -/
theorem exists_size (owner : String) (hoff : "Size" ∉ guard.names) (ht : g.find? "Size" = some t)
    (hname : t.name = "Size") (hpattern : t.pattern = .valueWithUnit sizePattern) :
    ∃ size unit, finishField g owner (fieldOf levelSize { name := "size", node := .element }
      (.record "Size") (referent? g guard "Size")) = [size, unit] ∧ ShowsSize g size unit := by
  have htarget : (g.target? (fieldOf levelSize { name := "size", node := .element }
      (.record "Size") (referent? g guard "Size"))).map (·.name) = some "Size" := by
    rw [target?_fieldOf hoff ht, Option.map_some, hname]
  have hbase : (fieldOf levelSize { name := "size", node := .element } (.record "Size")
      (referent? g guard "Size")).outputName = "size" :=
    (outputName_fieldOf ..).trans (by decide +kernel)
  refine ⟨_, _, finishField_of_valueWithUnit hoff ht hpattern, ?_, ?_, ?_, rfl, ?_, ?_⟩
  · rw [overrideField_outputName]
    exact hbase
  · rw [attributeField, hbase]
    exact (by decide +kernel : "size" ++ flattenSeparator ++ Text.snakeCase "unit" = "size_unit")
  · rw [overrideField_eq]
    rfl
  · rw [Graph.target?, Field.target?, overrideField_link]
    exact htarget
  · exact htarget

/-- A level that is not under analysis is nested. -/
theorem exists_nested_child (owner : String) {next : Nat} {id : StructId}
    (hoff : levelName next ∉ guard.names)
    (hid : g.lookup (levelName next) = some id) (ht : g.get? id = some t)
    (hpattern : t.pattern = .none) :
    ∃ child, finishField g owner (fieldOf (levelChild next) { name := "child", node := .element }
        (.record (levelName next)) (referent? g guard (levelName next))) = [child] ∧
      child.outputName = "child" ∧ child.isNested = true ∧ child.link = .struct id := by
  rw [referent?_of_lookup hoff hid, ht, fieldOf, recordField]
  simp only [Option.map_some, hpattern]
  refine ⟨_, finishField_of_not_marker rfl, ?_, ?_, ?_⟩
  · rw [overrideField_outputName]
    exact (by decide +kernel : Text.snakeCase "Child" = "child")
  · rw [overrideField_eq]
  · rw [overrideField_link]

/-- A level under analysis closes the chain. -/
theorem exists_closing_child (g : Graph) (owner : String) {next : Nat}
    (hon : levelName next ∈ guard.names) :
    ∃ child, finishField g owner (fieldOf (levelChild next) { name := "child", node := .element }
        (.record (levelName next)) (referent? g guard (levelName next))) = [child] ∧
      child.outputName = "child" ∧ child.link = .cycle (guard.trace (levelName next)) := by
  rw [referent?_of_mem hon]
  refine ⟨_, finishField_of_not_marker rfl, ?_, ?_⟩
  · rw [overrideField_outputName]
    exact (by decide +kernel : Text.snakeCase "Child" = "child")
  · rw [overrideField_link]
    rfl

end Fields

/-! ## Fields that lead back -/

theorem ShowsScalar.isCycle_eq_false {d : FieldDecl} {shown : Field} (h : ShowsScalar d shown) :
    shown.isCycle = false := by
  rw [Field.isCycle, Field.cycleTrace?, h.link]
  rfl

theorem isCycle_eq_false_of_forall₂ {decls : List FieldDecl} {fields : List Field}
    (h : List.Forall₂ ShowsScalar decls fields) : ∀ f ∈ fields, f.isCycle = false := by
  induction h with
  | nil => exact fun _ hf => by cases hf
  | cons hshows _ ih => exact List.forall_mem_cons.2 ⟨hshows.isCycle_eq_false, ih⟩

/-- What leads to a struct does not lead back. -/
theorem isCycle_eq_false_of_target? {f : Field} (h : (g.target? f).isSome = true) :
    f.isCycle = false := by
  rw [Graph.target?, Field.target?] at h
  rw [Field.isCycle, Field.cycleTrace?]
  split at h
  · rename_i hlink
    rw [hlink]
    rfl
  · cases h

/-- Of the fields of a level only the reference can lead back. -/
theorem countP_isCycle_of_level {decls : List FieldDecl} {attributes : List Field}
    {size unit child : Field} (hattributes : List.Forall₂ ShowsScalar decls attributes)
    (hsize : ShowsSize g size unit) :
    (attributes ++ [size, unit, child]).countP Field.isCycle = child.isCycle.toNat := by
  have htarget {f : Field} (h : (g.target? f).map (·.name) = some "Size") : f.isCycle = false :=
    isCycle_eq_false_of_target? (by rw [← Option.isSome_map, h, Option.isSome_some])
  have hnone : attributes.countP Field.isCycle = 0 :=
    List.countP_eq_zero.2 fun f hf => by simp [isCycle_eq_false_of_forall₂ hattributes f hf]
  rw [List.countP_append, hnone, List.countP_cons_of_neg (by simp [htarget hsize.sizeTarget]),
    List.countP_cons_of_neg (by simp [htarget hsize.unitTarget]), List.countP_singleton]
  cases child.isCycle <;> rfl

/-- If the fields of one struct only lead back, their number can be counted there. -/
theorem countP_isCycle_eq (hg : g.Indexed) {t : Struct} (ht : g.find? a = some t)
    (hother : ∀ t' ∈ g.structs, t'.name ≠ a → ∀ f ∈ t'.fields, f.isCycle = false) :
    (g.structs.flatMap Struct.fields).countP Field.isCycle = t.fields.countP Field.isCycle := by
  obtain ⟨hmem, rfl⟩ := hg.mem_of_find? ht
  obtain ⟨front, back, hsplit⟩ := List.append_of_mem hmem
  have hnodup := hg.nodup_names
  rw [Graph.names, hsplit, List.map_append, List.map_cons, List.nodup_append, List.nodup_cons]
    at hnodup
  obtain ⟨-, ⟨hback, -⟩, hfront⟩ := hnodup
  have hnone {others : List Struct} (hsub : others ⊆ g.structs)
      (hne : ∀ t' ∈ others, t'.name ≠ t.name) :
      (others.flatMap Struct.fields).countP Field.isCycle = 0 := by
    refine List.countP_eq_zero.2 fun f hf => ?_
    obtain ⟨t', ht', hf⟩ := List.mem_flatMap.1 hf
    simp [hother t' (hsub ht') (hne t' ht') f hf]
  rw [hsplit, List.flatMap_append, List.flatMap_cons, List.countP_append, List.countP_append,
    hnone (fun t' ht' => by rw [hsplit]; exact List.mem_append_left _ ht') fun t' ht' =>
      hfront _ (List.mem_map_of_mem ht') _ List.mem_cons_self,
    hnone (fun t' ht' => by rw [hsplit]; exact List.mem_append_right _ (List.mem_cons_of_mem _ ht'))
      fun t' ht' hname => hback (List.mem_map.2 ⟨t', ht', hname⟩)]
  omega

/-! ## Levels -/

/-- There is a struct for each level and one for the size. -/
theorem size_of_chain {depth : Nat} (hg : g.Indexed)
    (hnames : ∀ name, name ∈ g.names ↔ name = "Size" ∨ ∃ level < depth, name = levelName level) :
    g.size = depth + 1 := by
  have hperm : g.names.Perm ("Size" :: (List.range depth).map levelName) := by
    refine (List.perm_ext_iff_of_nodup hg.nodup_names ?_).2 fun name => ?_
    · rw [List.nodup_cons]
      refine ⟨fun hmem => ?_, List.nodup_range.map fun i j hij => Catalog.levelName_inj.1 hij⟩
      obtain ⟨i, -, hi⟩ := List.mem_map.1 hmem
      exact Catalog.levelName_ne_size i hi
    · rw [hnames name, List.mem_cons, List.mem_map]
      simp only [List.mem_range, eq_comm]
  have hlength := hperm.length_eq
  simpa [Graph.names, Graph.size] using hlength

section Level

variable {depth : Nat} (hdepth : 0 < depth) {width level : Nat}
  (h : Grown (chain depth width) (Declared (chain depth width)) s frames)
  (hguard : s.guard = .empty) (hfirst : s.graph.lookup (levelName 0) = some 0)

include hdepth h hguard hfirst

/-- A level comes under analysis with the levels in front of it. -/
theorem names_guard_of_level (hlevel : level < depth) (hf : f ∈ frames)
    (hname : f.name = levelName level) :
    f.guard.names = (List.range (level + 1)).map levelName := by
  induction level generalizing f with
  | zero =>
      rw [h.guard_eq_singleton_of_first hf (hname ▸ hfirst), hname]
      rfl
  | succ level ih =>
      have hreach := (Catalog.reaches_chain_iff hdepth width).2 (.inr ⟨level + 1, hlevel, rfl⟩)
      have hne : f.name ≠ levelName 0 := by
        rw [hname, Ne, Catalog.levelName_inj]
        exact Nat.succ_ne_zero level
      obtain ⟨outer, houter, heq, hmention⟩ :=
        h.exists_outer_of_reaches_first hguard hfirst hf (hname ▸ hreach) hne
      rw [hname] at hmention
      have hmentions := (Catalog.mentions_chain_succ_iff hdepth width hlevel).1 hmention
      rw [heq, ih (by omega) houter hmentions, hname, List.range_succ (n := level + 1),
        List.map_append]
      rfl

/-- What the chain is about is in the graph. -/
theorem mem_names_of_chain {name : String}
    (hname : name = "Size" ∨ ∃ level < depth, name = levelName level) : name ∈ s.graph.names :=
  h.mem_names_of_reaches hguard (h.indexed.mem_names_iff.2 ⟨0, hfirst⟩)
    ((Catalog.reaches_chain_iff hdepth width).2 hname)

theorem exists_sizeStruct : ∃ t, s.graph.find? "Size" = some t ∧
    t.pattern = .valueWithUnit sizePattern ∧
    List.Forall₂ ShowsScalar sizeRecord.fields t.fields := by
  obtain ⟨f, -, t, hname, hdecl, ht, hpattern, hfields⟩ :=
    h.exists_struct hguard (mem_names_of_chain hdepth h hguard hfirst (.inl rfl))
  rw [Catalog.find?_chain_size hdepth, Option.some_inj] at hdecl
  rw [Frame.fieldsIn, ← hdecl] at hfields
  rw [← hdecl] at hpattern
  refine ⟨t, ht, hpattern.trans (by decide), ?_⟩
  rw [hfields]
  refine forall₂_showsScalar fun d hd => ?_
  obtain ⟨kind, hkind⟩ := Catalog.exists_scalar_of_mem_sizeRecord d hd
  have hshown : ∀ d ∈ sizeRecord.fields, d.isSerialized = true ∧ d.embedded = false := by decide
  exact ⟨(hshown d hd).1, (hshown d hd).2, by rw [hkind]; rfl⟩

/-- The reference of a level leads to the next one, or closes the chain. -/
theorem exists_child (hlevel : level < depth) {guard : CycleGuard} (owner : String)
    (hnames : guard.names = (List.range (level + 1)).map levelName) :
    ∃ child, finishField s.graph owner (fieldOf (levelChild ((level + 1) % depth))
        { name := "child", node := .element } (.record (levelName ((level + 1) % depth)))
        (referent? s.graph guard (levelName ((level + 1) % depth)))) = [child] ∧
      child.outputName = "child" ∧
      (level + 1 < depth → child.isNested = true ∧
        ∃ id, s.graph.lookup (levelName (level + 1)) = some id ∧ child.link = .struct id) ∧
      (level + 1 = depth → child.link = .cycle
        (traceSeparator.intercalate ((List.range depth).map levelName ++ [levelName 0]))) := by
  by_cases hlast : level + 1 = depth
  · have hon : levelName 0 ∈ guard.names := by
      rw [hnames]
      exact List.mem_map_of_mem (List.mem_range.2 (Nat.succ_pos level))
    obtain ⟨child, hchild, hname, hlink⟩ := exists_closing_child s.graph owner hon
    rw [hlast, Nat.mod_self]
    refine ⟨child, hchild, hname, fun hlt => absurd rfl (Nat.ne_of_lt hlt), fun _ => ?_⟩
    rw [hlink, CycleGuard.trace, CycleGuard.cycleTo, hnames, hlast, ← hlast, List.range_succ_eq_map,
      List.map_cons, List.dropWhile_cons_of_neg (by simp)]
  · have hlt : level + 1 < depth := by omega
    have hoff : levelName (level + 1) ∉ guard.names := by
      rw [hnames]
      intro hmem
      obtain ⟨i, hi, hname⟩ := List.mem_map.1 hmem
      rw [Catalog.levelName_inj.1 hname, List.mem_range] at hi
      exact Nat.lt_irrefl _ hi
    obtain ⟨next, -, t, -, hdecl, ht, hpattern, -⟩ := h.exists_struct hguard
      (mem_names_of_chain hdepth h hguard hfirst (.inr ⟨level + 1, hlt, rfl⟩))
    rw [Catalog.find?_chain_level hdepth width hlt, Option.some_inj] at hdecl
    rw [← hdecl, structPattern_levelRecord] at hpattern
    obtain ⟨id, hid, hget⟩ := Option.bind_eq_some_iff.1 ht
    obtain ⟨child, hchild, hname, hnested, hlink⟩ :=
      exists_nested_child owner hoff hid hget hpattern
    rw [Nat.mod_eq_of_lt hlt]
    exact ⟨child, hchild, hname, fun _ => ⟨hnested, id, hid, hlink⟩, fun heq => absurd heq hlast⟩

/-- The struct of a level has its attributes, the size with its unit, and the reference. -/
theorem exists_levelStruct (hlevel : level < depth) :
    ∃ t attributes size unit child, s.graph.find? (levelName level) = some t ∧
      t.fields = attributes ++ [size, unit, child] ∧
      List.Forall₂ ShowsScalar ((List.range width).map levelAttribute) attributes ∧
      ShowsSize s.graph size unit ∧ child.outputName = "child" ∧
      (level + 1 < depth → child.isNested = true ∧
        ∃ id, s.graph.lookup (levelName (level + 1)) = some id ∧ child.link = .struct id) ∧
      (level + 1 = depth → child.link = .cycle
        (traceSeparator.intercalate ((List.range depth).map levelName ++ [levelName 0]))) := by
  obtain ⟨f, hf, t, hname, hdecl, ht, -, hfields⟩ :=
    h.exists_struct hguard (mem_names_of_chain hdepth h hguard hfirst (.inr ⟨level, hlevel, rfl⟩))
  have hnames := names_guard_of_level hdepth h hguard hfirst hlevel hf hname
  rw [Catalog.find?_chain_level hdepth width hlevel, Option.some_inj] at hdecl
  rw [Frame.fieldsIn, ← hdecl, bodyFields_levelRecord] at hfields
  have hattributes : List.Forall₂ ShowsScalar ((List.range width).map levelAttribute)
      (bodyFields s.graph f.guard f.name ((List.range width).map levelAttribute)) := by
    refine forall₂_showsScalar fun d hd => ?_
    obtain ⟨i, -, rfl⟩ := List.mem_map.1 hd
    exact ⟨rfl, rfl, rfl⟩
  have hoff : "Size" ∉ f.guard.names := by
    rw [hnames]
    intro hmem
    obtain ⟨i, -, hi⟩ := List.mem_map.1 hmem
    exact Catalog.levelName_ne_size i hi
  obtain ⟨ts, hts, hpattern, -⟩ := exists_sizeStruct hdepth h hguard hfirst
  obtain ⟨size, unit, hsize, hshows⟩ :=
    exists_size f.name hoff hts (h.indexed.mem_of_find? hts).2 hpattern
  obtain ⟨child, hchild, hchildName, hlinks⟩ :=
    exists_child hdepth h hguard hfirst hlevel f.name hnames
  rw [hsize, hchild] at hfields
  exact ⟨t, _, size, unit, child, ht, hfields, hattributes, hshows, hchildName, hlinks⟩

variable (hnames : ∀ name, name ∈ s.graph.names ↔
  name = "Size" ∨ ∃ level < depth, name = levelName level)

include hnames

/-- Only the last level leads back. -/
theorem isCycle_eq_false_of_ne_last {t : Struct} (ht : t ∈ s.graph.structs)
    (hne : t.name ≠ levelName (depth - 1)) : ∀ shown ∈ t.fields, shown.isCycle = false := by
  obtain ⟨-, -, -, -, -, hfind⟩ := h.exists_frame_of_mem ht
  rcases (hnames t.name).1 (h.indexed.mem_names_of_find? hfind) with hname | ⟨level, hlevel, hname⟩
  · obtain ⟨ts, hts, -, hshows⟩ := exists_sizeStruct hdepth h hguard hfirst
    rw [hname, hts] at hfind
    cases hfind
    exact isCycle_eq_false_of_forall₂ hshows
  · obtain ⟨tl, attributes, size, unit, child, htl, hfields, hattributes, hsize, -, hnext, -⟩ :=
      exists_levelStruct hdepth h hguard hfirst hlevel
    rw [hname, htl] at hfind
    cases hfind
    rw [hname, Ne, Catalog.levelName_inj] at hne
    obtain ⟨-, id, -, hlink⟩ := hnext (by omega)
    have hnone : t.fields.countP Field.isCycle = 0 := by
      rw [hfields, countP_isCycle_of_level hattributes hsize, Field.isCycle, Field.cycleTrace?,
        hlink]
      rfl
    exact fun shown hshown => Bool.eq_false_iff.2 (List.countP_eq_zero.1 hnone shown hshown)

theorem countP_isCycle_of_chain :
    (s.graph.structs.flatMap Struct.fields).countP Field.isCycle = 1 := by
  obtain ⟨t, attributes, size, unit, child, ht, hfields, hattributes, hsize, -, -, hclosing⟩ :=
    exists_levelStruct hdepth h hguard hfirst (show depth - 1 < depth by omega)
  rw [countP_isCycle_eq h.indexed ht fun t' ht' hne =>
      isCycle_eq_false_of_ne_last hdepth h hguard hfirst hnames ht' hne,
    hfields, countP_isCycle_of_level hattributes hsize, Field.isCycle, Field.cycleTrace?,
    hclosing (by omega)]
  rfl

end Level

namespace Reflector

/-- The state after the first level of a chain has been asked for. -/
theorem exists_reflect_chain {depth : Nat} (hdepth : 0 < depth) (width : Nat) :
    let r := (ofCatalog (chain depth width)).reflect (levelName 0)
    r.1 = .ok 0 ∧ r.2.graph.lookup (levelName 0) = some 0 ∧ r.2.guard = .empty ∧
      (∃ frames, Grown (chain depth width) (Declared (chain depth width)) r.2.toWalkState frames) ∧
      ∀ name, name ∈ r.2.graph.names ↔ name = "Size" ∨ ∃ level < depth, name = levelName level := by
  intro r
  have hempty : "" ∉ (chain depth width).names := by
    rw [Catalog.mem_names_chain hdepth]
    rintro (h | ⟨level, -, h⟩)
    · exact absurd h (by decide)
    · exact Catalog.levelName_ne_empty level h.symm
  have hdeclared (m : String) (hm : (chain depth width).Reaches (levelName 0) m) :
      (chain depth width).contains m = true :=
    (Catalog.mem_names_iff_contains _ _).1
      ((Catalog.mem_names_chain hdepth width).2 ((Catalog.reaches_chain_iff hdepth width).1 hm))
  obtain ⟨id, hok⟩ := exists_reflect_ok (r := ofCatalog (chain depth width)) rfl hempty
    Graph.indexed_empty hdeclared
  have hstart : Grown (chain depth width) (Declared (chain depth width))
      (ofCatalog (chain depth width)).toWalkState [] := .start
  obtain ⟨frames, ⟨hgrown, -, hcontinues⟩, hid⟩ := grows_of_reflect hstart rfl rfl hok
  obtain rfl : id = 0 := id_of_reflect_fresh (hstart.indexed.lookup_eq_none_iff.2 nofun) hok
  refine ⟨hok, hid, hcontinues.guard, ⟨frames, hgrown⟩, fun name => ?_⟩
  rw [← Catalog.reaches_chain_iff hdepth width]
  constructor
  · intro hname
    exact (addsReached_of_reflect rfl hempty Graph.indexed_empty hok name hname).resolve_left nofun
  · exact fun hname => (mem_names_of_reflect hstart rfl rfl hok hname).1

/-- Chains of any depth and width are valid, and their first level can be reflected.  The graph has
one struct for each level and one for the size.  Each level shows its attributes, the size with its
unit, and the reference, which is nested and leads to the next level.  Only that of the last level
leads back: its trace shows all levels in order and the first one again. -/
theorem reflect_chain (depth width : Nat) :
    let last := max depth 1 - 1
    let r := (ofCatalog (chain depth width)).reflect (levelName 0)
    let g := r.2.graph
    (chain depth width).validate = .ok () ∧ r.1 = .ok 0 ∧ g.lookup (levelName 0) = some 0 ∧
      g.size = max depth 1 + 1 ∧
      (∀ level ≤ last, ∃ t attributes size unit child, g.find? (levelName level) = some t ∧
        t.fields = attributes ++ [size, unit, child] ∧ t.fields.length = width + 3 ∧
        List.Forall₂ ShowsScalar ((List.range width).map levelAttribute) attributes ∧
        ShowsSize g size unit ∧ child.outputName = "child" ∧
        (level < last → child.isNested = true ∧
          ∃ id, g.lookup (levelName (level + 1)) = some id ∧ child.link = .struct id) ∧
        (level = last → child.link = .cycle (traceSeparator.intercalate
          ((List.range (max depth 1)).map levelName ++ [levelName 0])))) ∧
      (g.structs.flatMap Struct.fields).countP Field.isCycle = 1 := by
  rw [← Catalog.chain_max]
  have hdepth : 0 < max depth 1 := Nat.lt_of_lt_of_le Nat.one_pos (Nat.le_max_right ..)
  generalize max depth 1 = depth at hdepth
  intro last r g
  obtain ⟨hok, hfirst, hguard, ⟨frames, h⟩, hnames⟩ := exists_reflect_chain hdepth width
  refine ⟨Catalog.validate_chain depth width, hok, hfirst, size_of_chain h.indexed hnames, ?_,
    countP_isCycle_of_chain hdepth h hguard hfirst hnames⟩
  intro level hlevel
  have hlt : level < depth := by omega
  obtain ⟨t, attributes, size, unit, child, ht, hfields, hattributes, hsize, hname, hnext,
    hlast⟩ := exists_levelStruct hdepth h hguard hfirst hlt
  refine ⟨t, attributes, size, unit, child, ht, hfields, ?_, hattributes, hsize, hname,
    fun hlevel => hnext (by omega), fun hlevel => hlast (by omega)⟩
  rw [hfields, List.length_append, ← hattributes.length_eq, List.length_map, List.length_range]
  rfl

example : ((((ofCatalog (chain 3 1)).reflect "Level0").2.graph.structs.flatMap
    Struct.fields).filterMap Field.cycleTrace?) = ["Level0 → Level1 → Level2 → Level0"] := by
  decide +kernel

end Reflector

end RecordSchema.Reflection
