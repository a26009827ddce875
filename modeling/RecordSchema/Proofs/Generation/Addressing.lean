import Mathlib.Tactic.TFAE
import RecordSchema.Proofs.Generation.Exclusion
import RecordSchema.Proofs.Reflection.OutputName

/-!
# Fields by name

Fields are looked up and left out by their output names, and described and reported under paths that
end in them.  Each of these ways finds every field of a struct just when the names differ.  A valid
catalog does not see to that: its check compares the names as they are declared.
-/

namespace RecordSchema.Generation

open Reflection (LeadsTo NamesApart bodySteps stepNames)
open Reflection.Reflector (after memoryCatalog)
open Schema (Field Struct)

variable {fields : List Field} {f f' : Field}

/-! ## Names, paths and marks -/

/-- Names are different if two places never have the same one. -/
theorem nodup_outputNames_iff :
    (fields.map (·.outputName)).Nodup ↔ ∀ (i j : Nat) (f f' : Field), i < j →
      fields[i]? = some f → fields[j]? = some f' → f.outputName ≠ f'.outputName := by
  rw [List.nodup_iff_pairwise_ne, List.pairwise_map, List.pairwise_iff_getElem]
  constructor
  · intro h i j f f' hij hf hf'
    obtain ⟨hi, rfl⟩ := List.getElem?_eq_some_iff.1 hf
    obtain ⟨hj, rfl⟩ := List.getElem?_eq_some_iff.1 hf'
    exact h i j hi hj hij
  · intro h i j hi hj hij
    exact h i j _ _ hij (List.getElem?_eq_getElem hi) (List.getElem?_eq_getElem hj)

theorem outputPath_inj {parent : String} :
    outputPath parent f = outputPath parent f' ↔ f.outputName = f'.outputName := by
  simp [outputPath, toString, ← String.toList_inj]

/-- Where names are different, no field in front of another one has its name. -/
theorem outputName_notMem_take (h : (fields.map (·.outputName)).Nodup) {i : Nat}
    (hf : fields[i]? = some f) : f.outputName ∉ (fields.take i).map (·.outputName) := by
  intro hmem
  obtain ⟨f', hf', hname⟩ := List.mem_map.1 hmem
  obtain ⟨j, hj, rfl⟩ := List.mem_take_iff_getElem.1 hf'
  have hlt : j < i ∧ j < fields.length := Nat.lt_min.1 hj
  exact nodup_outputNames_iff.1 h j i _ f hlt.1 (List.getElem?_eq_getElem hlt.2) hf hname

/-- A field with a name of its own is left out by it, and no other one is. -/
theorem excludeField_of_nodup (h : (fields.map (·.outputName)).Nodup) {i : Nat}
    (hf : fields[i]? = some f) (reason : String) :
    excludeField f.outputName reason fields =
      fields.set i { f with exclusion := some reason } := by
  refine List.ext_getElem? fun j => ?_
  rw [excludeField_getElem?]
  by_cases hij : i = j
  · subst hij
    rw [List.getElem?_set_self (List.getElem?_eq_some_iff.1 hf).1, hf, Option.map_some,
      if_pos ⟨rfl, outputName_notMem_take h hf⟩]
  · rw [List.getElem?_set_ne hij]
    cases hf' : fields[j]? with
    | none => rfl
    | some f' =>
        rw [Option.map_some, if_neg]
        rintro ⟨hname, -⟩
        rcases Nat.lt_or_gt_of_ne hij with hlt | hlt
        · exact nodup_outputNames_iff.1 h i j f f' hlt hf hf' hname.symm
        · exact nodup_outputNames_iff.1 h j i f' f hlt hf' hf hname

/-- A field behind another one of its name cannot be left out by it. -/
theorem exclusion_of_excludeField_eq_set {i j : Nat} {reason : String} (hij : i < j)
    (hf : fields[i]? = some f) (hf' : fields[j]? = some f') (hname : f.outputName = f'.outputName)
    (heq : excludeField f'.outputName reason fields =
      fields.set j { f' with exclusion := some reason }) : f'.exclusion = some reason := by
  have hj := (List.getElem?_eq_some_iff.1 hf').1
  have hmem : f'.outputName ∈ (fields.take j).map (·.outputName) := by
    rw [← hname]
    exact List.mem_map_of_mem (List.mem_of_getElem? ((List.getElem?_take_of_lt hij).trans hf))
  have hplace := congrArg (·[j]?) heq
  simp only [excludeField_getElem?, hf', Option.map_some, List.getElem?_set_self hj] at hplace
  rw [if_neg fun h => h.2 hmem] at hplace
  exact congrArg Field.exclusion (Option.some.inj hplace)

/-- Fields differ in names just when each of them is found by its name, when each can be left out by
its name, and when they have different paths. -/
theorem nodup_outputNames_tfae (fields : List Field) :
    [(fields.map (·.outputName)).Nodup,
      ∀ i f, fields[i]? = some f →
        fields.find? (·.outputName == f.outputName) = some f ∧
          fields.findIdx? (·.outputName == f.outputName) = some i,
      ∀ i f reason, fields[i]? = some f → excludeField f.outputName reason fields =
        fields.set i { f with exclusion := some reason },
      ∀ parent, (fields.map (outputPath parent)).Nodup].TFAE := by
  tfae_have 1 → 2 := by
    intro h i f hf
    obtain ⟨hi, rfl⟩ := List.getElem?_eq_some_iff.1 hf
    have hfirst : ∀ j (hji : j < i), ¬(fields[j].outputName == fields[i].outputName) = true :=
      fun j hji hname => nodup_outputNames_iff.1 h j i _ _ hji (List.getElem?_eq_getElem _) hf
        (beq_iff_eq.1 hname)
    exact ⟨List.find?_eq_some_iff_getElem.2
        ⟨beq_self_eq_true _, i, hi, rfl, fun j hji => by simpa using hfirst j hji⟩,
      List.findIdx?_eq_some_iff_getElem.2 ⟨hi, beq_self_eq_true _, hfirst⟩⟩
  tfae_have 2 → 1 := by
    refine fun h => nodup_outputNames_iff.2 fun i j f f' hij hf hf' hname => ?_
    have hfound := (h j f' hf').2
    rw [← hname, (h i f hf).2] at hfound
    exact Nat.ne_of_lt hij (Option.some.inj hfound)
  tfae_have 1 → 3 := fun h i f reason hf => excludeField_of_nodup h hf reason
  tfae_have 3 → 1 := by
    refine fun h => nodup_outputNames_iff.2 fun i j f f' hij hf hf' hname => ?_
    -- the second field would have every reason to be left out
    have hreason (reason : String) : f'.exclusion = some reason :=
      exclusion_of_excludeField_eq_set hij hf hf' hname (h j f' reason hf')
    exact absurd ((hreason "").symm.trans (hreason " ")) (by decide)
  tfae_have 1 ↔ 4 := by
    have hpaths (parent : String) :
        (fields.map (outputPath parent)).Nodup ↔ (fields.map (·.outputName)).Nodup := by
      rw [List.nodup_iff_pairwise_ne, List.nodup_iff_pairwise_ne, List.pairwise_map,
        List.pairwise_map]
      simp only [ne_eq, outputPath_inj]
    simp only [hpaths, forall_const]
  tfae_finish

/-! ## Reflected structs -/

/-- After requests by name the output names of a struct are those that the steps of its declaration
give.  If they are kept apart, its fields have different names and every way to a field of the
struct leads to that field only; if two of them meet, none of the ways does. -/
theorem after_addressed_tfae (c : Catalog) (names : List String) {t : Struct}
    (ht : t ∈ (after c (names.map .reflect)).graph.structs) :
    let g := (after c (names.map .reflect)).graph
    ∃ r, c.find? t.name = some r ∧
      ∃ guard : Reflection.CycleGuard,
        (∀ name ∈ g.names, name ∈ guard.names ↔ LeadsTo c g name t.name) ∧
        t.fields.map (·.outputName) = (bodySteps r.fields).flatMap (stepNames g guard) ∧
        [NamesApart g guard r.fields,
          (t.fields.map (·.outputName)).Nodup,
          ∀ i f, t.fields[i]? = some f →
            t.field? f.outputName = some f ∧
              t.fields.findIdx? (·.outputName == f.outputName) = some i,
          ∀ i f reason, t.fields[i]? = some f → excludeField f.outputName reason t.fields =
            t.fields.set i { f with exclusion := some reason },
          ∀ parent, (t.fields.map (outputPath parent)).Nodup].TFAE := by
  intro g
  obtain ⟨frames, h⟩ := Reflection.Reflector.after_reflect_grown c names
  obtain ⟨r, hr, guard, hleads, hnames, hapart⟩ :=
    h.exists_outputNames (Reflection.Reflector.after_guard c _) ht
  exact ⟨r, hr, guard, hleads, hnames, List.tfae_cons_cons.2
    ⟨hapart.symm, nodup_outputNames_tfae t.fields⟩⟩

/-- The unit of an amount of memory is called after the amount, and so apart from it. -/
theorem after_addressed_tfae_memory :
    let g := (after memoryCatalog (["Domain"].map .reflect)).graph
    ∃ t ∈ g.structs, t.fields.map (·.outputName) = ["memory", "memory_unit"] ∧
      ∃ r guard, memoryCatalog.find? t.name = some r ∧ NamesApart g guard r.fields ∧
        ∀ i f, t.fields[i]? = some f →
          t.field? f.outputName = some f ∧
            t.fields.findIdx? (·.outputName == f.outputName) = some i := by
  intro g
  have hstruct : ∃ t ∈ g.structs, t.fields.map (·.outputName) = ["memory", "memory_unit"] := by
    decide +kernel
  obtain ⟨t, ht, hnames⟩ := hstruct
  obtain ⟨r, hr, guard, -, -, htfae⟩ := after_addressed_tfae memoryCatalog ["Domain"] ht
  have hnodup : (t.fields.map (·.outputName)).Nodup := by
    rw [hnames]
    decide
  exact ⟨t, ht, hnames, r, guard, hr, (htfae.out 1 0).1 hnodup, (htfae.out 1 2).1 hnodup⟩

/-- An interface that tells its transmission unit twice. -/
def mtuCatalog : Catalog :=
  .ofRecords "network"
    [{ name := "Interface"
       fields :=
        [{ name := "MTU", ty := .scalar .uint, tag := some { name := "mtu", node := .attr } },
         { name := "Mtu", ty := .scalar .uint
           tag := some { name := "size", node := .element } }] }]

/-- The catalog is valid, and both fields of the interface are called the same: the second one is
neither found nor left out by its name. -/
theorem fields_not_addressed :
    mtuCatalog.validate = .ok () ∧
    ∃ t ∈ (after mtuCatalog [.reflect "Interface"]).graph.structs,
      t.fields.map (·.xmlName) = ["mtu", "size"] ∧
      t.fields.map (·.outputName) = ["mtu", "mtu"] ∧
      (t.field? "mtu").map (·.xmlName) = some "mtu" ∧
      (excludeField "mtu" "" t.fields).map (·.exclusion) = [some "", none] ∧
      t.fields.map (outputPath "interface") = ["interface.mtu", "interface.mtu"] := by
  refine ⟨by rfl, ?_⟩
  decide +kernel

end RecordSchema.Generation
