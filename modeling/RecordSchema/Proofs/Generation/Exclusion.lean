import RecordSchema.Proofs.Generation.Erasure

/-!
# Exclusions

An exclusion names a struct, or a field of it by output name.  Of several that name the same the
last one counts, of several fields with one output name only the first can be named, and what is not
in the graph cannot be left out.  Nothing else depends on exclusions.
-/

namespace RecordSchema.Generation

open Docs (DocRegistry describeField describeStruct)
open Schema (Field Graph Struct StructId)

variable {c : Catalog} {config : Generator} {g g' : Graph} {roots : List ResourceRoot}
  {es : List Exclusion} {e : Exclusion} {s s' : Struct} {fields : List Field} {i : Nat}

/-! ## One exclusion -/

/-- What an exclusion makes of a struct. -/
def Exclusion.applyTo (e : Exclusion) (s : Struct) : Struct :=
  if s.name = e.record then
    match e.field with
    | none => { s with exclusion := some e.reason }
    | some name => { s with fields := excludeField name e.reason s.fields }
  else s

/-- Where names are found by the index, an exclusion looks at all structs alike. -/
theorem exclude_eq_mapStructs (hg : g.Indexed) (e : Exclusion) :
    exclude g e = g.mapStructs e.applyTo := by
  refine congrArg₂ Schema.Graph.mk (List.ext_getElem? fun id => ?_) (sameUpTo_exclude g e).index
  change (exclude g e).get? id = (g.mapStructs e.applyTo).get? id
  rw [Graph.get?_mapStructs, exclude]
  cases hs : g.get? id with
  | none => split <;> simp [hs, Graph.get?_modify]
  | some s =>
      split
      · rename_i hlookup
        have hname : s.name ≠ e.record := by
          rintro heq
          rw [← heq, hg.lookup_name hs] at hlookup
          cases hlookup
        rw [hs, Option.map_some, Exclusion.applyTo, if_neg hname]
      · rename_i target hlookup
        have htarget : target = id ↔ s.name = e.record := by
          constructor
          · rintro rfl
            obtain ⟨t, ht, hname⟩ := hg.lookup_iff.1 hlookup
            rwa [Option.some.inj (hs.symm.trans ht)]
          · intro heq
            rw [← heq, hg.lookup_name hs] at hlookup
            exact (Option.some.inj hlookup).symm
        rw [Graph.get?_modify, hs, Option.map_some, Option.map_some, Exclusion.applyTo]
        exact congrArg some (if_congr htarget rfl rfl)

theorem mapStructs_exclude (g : Graph) (e : Exclusion) :
    (exclude g e).mapStructs Struct.unexcluded = g.mapStructs Struct.unexcluded := by
  rw [exclude]
  split
  · rfl
  · refine Graph.mapStructs_modify_of_eq (fun s => ?_) g _
    split
    · rfl
    · rw [Struct.unexcluded, Struct.unexcluded, map_excludeField Field.unexcluded fun _ _ => rfl]

/-- The fields are those of before, the first one of the name marked. -/
theorem excludeField_getElem? (name reason : String) (fields : List Field) (i : Nat) :
    (excludeField name reason fields)[i]? = fields[i]?.map fun f =>
      if f.outputName = name ∧ name ∉ (fields.take i).map (·.outputName) then
        { f with exclusion := some reason }
      else f := by
  induction fields generalizing i with
  | nil => simp [excludeField]
  | cons first rest ih =>
      rw [excludeField]
      by_cases h : first.outputName = name
      · cases i with
        | zero => simp [h]
        | succ i => simp [h]
      · cases i with
        | zero => simp [h]
        | succ i => simp [h, ih, Ne.symm h]

/-! ## All exclusions -/

/-- The reason of the last of the exclusions that name a struct, or a field of it. -/
def lastReason (es : List Exclusion) (record : String) (field : Option String) : Option String :=
  ((es.filter fun e => e.record == record && e.field == field).getLast?).map (·.reason)

theorem lastReason_concat (es : List Exclusion) (e : Exclusion) (record : String)
    (field : Option String) :
    lastReason (es ++ [e]) record field =
      if e.record = record ∧ e.field = field then some e.reason
      else lastReason es record field := by
  rw [lastReason, List.filter_append, List.getLast?_append, lastReason]
  by_cases h : e.record = record ∧ e.field = field
  · simp [h]
  · simp [h]

/-- A struct and its fields are marked with the reasons of the last exclusions that name them; of
fields with one output name only the first is ever marked. -/
structure ExcludedBy (es : List Exclusion) (s : Struct) : Prop where
  struct : s.exclusion = lastReason es s.name none
  field : ∀ i f, s.fields[i]? = some f → f.exclusion =
    if f.outputName ∈ (s.fields.take i).map (·.outputName) then none
    else lastReason es s.name (some f.outputName)

/-- A field is marked only if none before it has its output name. -/
theorem excludeField_marks {name reason : String} (last : String → Option String)
    (h : ∀ i f, fields[i]? = some f → f.exclusion =
      if f.outputName ∈ (fields.take i).map (·.outputName) then none else last f.outputName)
    {f : Field} (hf : (excludeField name reason fields)[i]? = some f) :
    f.exclusion =
      if f.outputName ∈ ((excludeField name reason fields).take i).map (·.outputName) then none
      else if name = f.outputName then some reason else last f.outputName := by
  have hbefore : ((excludeField name reason fields).take i).map (·.outputName) =
      (fields.take i).map (·.outputName) := by
    rw [List.map_take, map_excludeField _ fun _ _ => rfl, List.map_take]
  rw [excludeField_getElem?, Option.map_eq_some_iff] at hf
  obtain ⟨f₀, hf₀, hf⟩ := hf
  rw [hbefore]
  split at hf
  · rename_i hfirst
    obtain ⟨rfl, hfirst⟩ := hfirst
    subst hf
    rw [if_neg hfirst, if_pos rfl]
  · rename_i hkept
    subst hf
    rw [h i f₀ hf₀]
    split
    · rfl
    · rename_i hnew
      have hother : name ≠ f₀.outputName := by
        rintro rfl
        exact hkept ⟨rfl, hnew⟩
      rw [if_neg hother]

theorem ExcludedBy.applyTo (h : ExcludedBy es s) (e : Exclusion) :
    ExcludedBy (es ++ [e]) (e.applyTo s) := by
  by_cases hname : s.name = e.record
  · rw [Exclusion.applyTo, if_pos hname]
    split
    · rename_i hfield
      have hfields (n : String) :
          lastReason (es ++ [e]) s.name (some n) = lastReason es s.name (some n) := by
        rw [lastReason_concat, if_neg (by simp [hfield])]
      refine ⟨?_, fun i f hf => (hfields _).symm ▸ h.field i f hf⟩
      rw [lastReason_concat, if_pos ⟨hname.symm, hfield⟩]
    · rename_i name hfield
      have hfields (n : String) : lastReason (es ++ [e]) s.name (some n) =
          if name = n then some e.reason else lastReason es s.name (some n) := by
        rw [lastReason_concat, hfield]
        simp [hname]
      refine ⟨?_, fun i f hf => ?_⟩
      · rw [lastReason_concat, if_neg (by simp [hfield])]
        exact h.struct
      · rw [hfields]
        exact excludeField_marks (fun n => lastReason es s.name (some n)) h.field hf
  · have hother (field : Option String) :
        lastReason (es ++ [e]) s.name field = lastReason es s.name field := by
      rw [lastReason_concat, if_neg fun heq => hname heq.1.symm]
    rw [Exclusion.applyTo, if_neg hname]
    exact ⟨(hother none).symm ▸ h.struct, fun i f hf => (hother _).symm ▸ h.field i f hf⟩

theorem ExcludedBy.foldl_applyTo (h : ExcludedBy [] s) (es : List Exclusion) :
    ExcludedBy es (es.foldl (fun s e => e.applyTo s) s) := by
  induction es using List.reverseRecOn with
  | nil => exact h
  | append_singleton es e ih =>
      rw [List.foldl_concat]
      exact ih.applyTo e

theorem foldl_exclude_eq_mapStructs (hg : g.Indexed) (es : List Exclusion) :
    es.foldl exclude g = g.mapStructs fun s => es.foldl (fun s e => e.applyTo s) s := by
  induction es generalizing g with
  | nil => exact (Graph.mapStructs_self fun _ _ => rfl).symm
  | cons e rest ih =>
      rw [List.foldl_cons, ih ((sameUpTo_exclude g e).indexed hg), exclude_eq_mapStructs hg,
        Graph.mapStructs_mapStructs]
      rfl

/-! ## What follows -/

/-- The reasons in a struct, with the names they are told by. -/
def reasons (s : Struct) : String × Option String × List (String × Option String) :=
  (s.name, s.exclusion, s.fields.map fun f => (f.outputName, f.exclusion))

theorem ExcludedBy.of_reasons_eq (h : ExcludedBy es s) (heq : reasons s' = reasons s) :
    ExcludedBy es s' := by
  obtain ⟨hname, hrest⟩ := Prod.mk.inj heq
  obtain ⟨hstruct, hfields⟩ := Prod.mk.inj hrest
  refine ⟨hname ▸ hstruct ▸ h.struct, fun i f' hf' => ?_⟩
  have houtput : (s'.fields.take i).map (·.outputName) = (s.fields.take i).map (·.outputName) := by
    have hmap := congrArg (fun pairs => (pairs.map Prod.fst).take i) hfields
    simp only [List.map_map] at hmap
    rwa [List.map_take, List.map_take]
  have hfield := congrArg (·[i]?) hfields
  simp only [List.getElem?_map, hf', Option.map_some] at hfield
  obtain ⟨f, hf, hpair⟩ := Option.map_eq_some_iff.1 hfield.symm
  obtain ⟨hsame, hreason⟩ := Prod.mk.inj hpair
  rw [houtput, ← hsame, ← hreason, hname]
  exact h.field i f hf

theorem map_reasons_assignRootPaths (g : Graph) (roots : List PathRoot) :
    (assignRootPaths g roots).structs.map reasons = g.structs.map reasons := by
  have hplace (p : Position) (f : Field) :
      ((placeField p f).outputName, (placeField p f).exclusion) = (f.outputName, f.exclusion) := by
    rw [placeField]
    split <;> rfl
  rw [assignRootPaths_eq]
  refine Graph.foldl_invariant (·.structs.map reasons) ?_ _ g
  rintro g ⟨id, p⟩
  refine Graph.map_structs_modify reasons g id _ fun s => ?_
  simp [reasons, hplace]

theorem map_reasons_apply (r : DocRegistry) (g : Graph) (root : StructId) (path : String) :
    (r.apply g root path).structs.map reasons = g.structs.map reasons := by
  have hdescribe (path : String) (f : Field) :
      ((describeField r path f).outputName, (describeField r path f).exclusion) =
        (f.outputName, f.exclusion) := by
    rw [describeField]
    split <;> rfl
  rw [DocRegistry.apply]
  split
  · rfl
  · refine Graph.foldl_invariant (·.structs.map reasons) ?_ _ g
    rintro g ⟨id, path⟩
    refine Graph.map_structs_modify reasons g id _ fun s => ?_
    rw [describeStruct]
    split <;> simp [reasons, hdescribe]

theorem unexcluded_placeField (p : Position) (f : Field) :
    (placeField p f).unexcluded = placeField p f.unexcluded := by
  have hpath : f.unexcluded.path = f.path := rfl
  rw [placeField, placeField, hpath]
  split <;> rfl

theorem unexcluded_describeField (r : DocRegistry) (path : String) (f : Field) :
    (describeField r path f).unexcluded = describeField r path f.unexcluded := by
  have hpath : outputPath path f.unexcluded = outputPath path f := rfl
  rw [describeField, describeField, hpath]
  cases r.described? (outputPath path f) <;> rfl

theorem unexcluded_describeStruct (r : DocRegistry) (path : String) (s : Struct) :
    (describeStruct r path s).unexcluded = describeStruct r path s.unexcluded := by
  rw [describeStruct, describeStruct]
  split <;> simp [Struct.unexcluded, unexcluded_describeField]

/-- Paths are recorded alike, whatever is left out. -/
theorem mapStructs_assignRootPaths (g : Graph) (roots : List PathRoot) :
    (assignRootPaths g roots).mapStructs Struct.unexcluded =
      assignRootPaths (g.mapStructs Struct.unexcluded) roots := by
  have hsame := (Graph.SameUpTo.mapStructs Struct.erased_unexcluded g).core_of_unnoted
  rw [assignRootPaths_eq, assignRootPaths_eq, allVisits_eq_of_sameUpTo hsame]
  refine Graph.mapStructs_foldl ?_ _ g
  rintro g ⟨id, p⟩
  refine Graph.mapStructs_modify (fun s => ?_) g id
  simp [Struct.unexcluded, unexcluded_placeField]

/-- Descriptions are put on alike, whatever is left out. -/
theorem mapStructs_unexcluded_apply (r : DocRegistry) (g : Graph) (root : StructId)
    (path : String) :
    (r.apply g root path).mapStructs Struct.unexcluded =
      r.apply (g.mapStructs Struct.unexcluded) root path := by
  have hsame := (Graph.SameUpTo.mapStructs Struct.erased_unexcluded g).core_of_unnoted
  rw [DocRegistry.apply, DocRegistry.apply]
  split
  · rfl
  · rw [overlayVisits_eq_of_sameUpTo hsame]
    refine Graph.mapStructs_foldl ?_ _ g
    rintro g ⟨id, path⟩
    exact Graph.mapStructs_modify (unexcluded_describeStruct r path) g id

/-! ## Runs -/

namespace Generator

/-- The configuration with nothing to leave out. -/
def complete (config : Generator) : Generator := { config with exclusions := [] }

/-- But for the reasons to leave something out, all is put on the graph that would be without
exclusions. -/
theorem mapStructs_unexcluded_annotate (config : Generator) (roots : List ResourceRoot)
    (g : Graph) (hg : g.mapStructs Struct.unexcluded = g) :
    (config.annotate roots g).mapStructs Struct.unexcluded = config.complete.annotate roots g := by
  have hexclude := Graph.foldl_invariant (·.mapStructs Struct.unexcluded) mapStructs_exclude
    config.exclusions g
  rw [annotate, Graph.mapStructs_foldl, mapStructs_assignRootPaths]
  · simp only [hexclude, hg]
    rfl
  · intro g root
    exact mapStructs_unexcluded_apply ..

theorem map_reasons_annotate (config : Generator) (roots : List ResourceRoot) (g : Graph) :
    (config.annotate roots g).structs.map reasons =
      (config.exclusions.foldl exclude g).structs.map reasons := by
  rw [annotate]
  refine (Graph.foldl_invariant (·.structs.map reasons) ?_ roots _).trans
    (map_reasons_assignRootPaths ..)
  intro g root
  exact map_reasons_apply ..

end Generator

/-- Nothing is left out when a graph is reflected. -/
theorem exclusion_eq_none_of_mem (hs : s ∈ (resourceGraph c roots).structs) :
    s.exclusion = none ∧ ∀ f ∈ s.fields, f.exclusion = none := by
  obtain ⟨id, hid⟩ := List.mem_iff_getElem?.1 hs
  replace hid : (resourceGraph c roots).get? id = some s := hid
  refine ⟨exclusion_resourceGraph hid, fun f hf => ?_⟩
  have hfield : f ∈ (resourceGraph c roots).fieldsAt id := by rwa [Graph.fieldsAt_of_get? hid]
  exact congrArg Schema.Annotations.exclusion (annotations_resourceGraph hfield)

/-- What a run with exclusions shares with the run without: all but the reasons in the graph and the
number of structs that are left out. -/
structure Run.Excludes (es : List Exclusion) (plain run : Run) : Prop where
  roots : run.roots = plain.roots
  structs : run.structs = plain.structs
  batches : run.batches = plain.batches
  totals : { run.totals with excluded := 0 } = plain.totals
  /-- But for the reasons the graphs are the same. -/
  graph : run.graph.mapStructs Struct.unexcluded = plain.graph
  /-- The reasons are those of the last exclusions. -/
  excludedBy : ∀ s ∈ run.graph.structs, ExcludedBy es s

theorem excludes_report (config : Generator) (c : Catalog) (roots : List ResourceRoot) :
    Run.Excludes config.exclusions
      (config.complete.report roots (config.complete.annotate roots (resourceGraph c roots)))
      (config.report roots (config.annotate roots (resourceGraph c roots))) := by
  have hplain : (resourceGraph c roots).mapStructs Struct.unexcluded = resourceGraph c roots := by
    refine Graph.mapStructs_self fun s hs => ?_
    obtain ⟨hstruct, hfields⟩ := exclusion_eq_none_of_mem hs
    exact Struct.unexcluded_eq_self hstruct hfields
  have hgraph := config.mapStructs_unexcluded_annotate roots _ hplain
  generalize hrun : config.annotate roots (resourceGraph c roots) = g at hgraph ⊢
  have hsame := (Graph.SameUpTo.mapStructs Struct.erased_unexcluded g).core_of_unnoted
  have hstructs := reached_eq_of_sameUpTo hsame (roots.map (·.id))
  rw [← hgraph]
  refine ⟨rfl, hstructs.symm, ?_, ?_, rfl, ?_⟩
  · rw [Generator.report, Generator.report]
    refine congrArg (fun collect => buildBatches (roots.flatMap collect) config.batchSize)
      (funext fun root => ?_)
    exact (collectFields_eq_of_sameUpTo hsame ..).symm
  · -- without reasons no struct is left out
    have hfields (s : Struct) : s.unexcluded.fields = s.fields.map Field.unexcluded := rfl
    rw [Generator.report, Generator.report, hstructs, Graph.filterMap_get?_mapStructs,
      ofStructs_map hfields (fun _ => rfl) fun _ => rfl]
    have hnone : (fun s : Struct => s.unexcluded.isExcluded) = fun _ => false := rfl
    rw [hnone, List.countP_false]
    rfl
  · intro s hs
    have hmem := List.mem_map_of_mem (f := reasons) hs
    change reasons s ∈ g.structs.map reasons at hmem
    rw [← hrun, Generator.map_reasons_annotate,
      foldl_exclude_eq_mapStructs (resourceGraph_indexed c roots)] at hmem
    obtain ⟨t, ht, heq⟩ := List.mem_map.1 hmem
    obtain ⟨t₀, ht₀, rfl⟩ := List.mem_map.1 ht
    obtain ⟨hstruct, hfields⟩ := exclusion_eq_none_of_mem ht₀
    refine (ExcludedBy.foldl_applyTo ⟨hstruct, fun i f hf => ?_⟩ _).of_reasons_eq heq.symm
    rw [hfields f (List.mem_of_getElem? hf)]
    exact (ite_self none).symm

/-- Exclusions are annotations: with them and without them a run fails with the same error or
succeeds with the same roots, structs and batches.  The totals differ in the number of structs that
are left out, the graphs in the reasons, which are those of the last exclusions that name a struct
or the first of its fields with an output name; an exclusion of what there is not does nothing. -/
theorem Generator.run_excludes (config : Generator) (c : Catalog) :
    EndAlike (Run.Excludes config.exclusions) ({ config with exclusions := [] }.run c)
      (config.run c) :=
  run_endAlike rfl fun roots => excludes_report config c roots

end RecordSchema.Generation
