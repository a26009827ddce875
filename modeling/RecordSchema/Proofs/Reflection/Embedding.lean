import RecordSchema.Catalog.Validation
import RecordSchema.Proofs.Reflection.Reference
import RecordSchema.Proofs.Reflection.Refinement

/-!
# Embedded records

A record that embeds another one has copies of its fields, in one piece where the embedding is
declared, unless the embedded record leads to it: then its fields are not known when they are to be
copied, and there are none.
-/

namespace RecordSchema.Reflection

open Schema (Field Graph Struct)

variable {c : Catalog} {e : String}

/-! ## Bodies with an embedded record -/

theorem bodySteps_embed {front back : List FieldDecl} {d : FieldDecl}
    (hexported : d.exported = true) (hembedded : d.embedded = true)
    (he : d.ty.recordName? = some e) :
    bodySteps (front ++ d :: back) = bodySteps front ++ { item := .embed e } :: bodySteps back := by
  obtain ⟨name, ty, tag, exported, embedded, values⟩ := d
  rw [bodySteps_append, bodySteps, declSteps, if_pos hexported, if_pos hembedded,
    embedSteps_of_recordName? he]
  rfl

/-- The fields of an embedded record stand where the embedding is declared. -/
theorem bodyFields_embed {g : Graph} {guard : CycleGuard} {owner : String} {t : Struct}
    {front back : List FieldDecl} {d : FieldDecl} (hexported : d.exported = true)
    (hembedded : d.embedded = true) (he : d.ty.recordName? = some e) (ht : g.find? e = some t) :
    bodyFields g guard owner (front ++ d :: back) =
      bodyFields g guard owner front ++
        (if guard.contains e then [] else t.fields.map (overrideField owner)) ++
        bodyFields g guard owner back := by
  rw [bodyFields, bodySteps_embed hexported hembedded he, List.flatMap_append, List.flatMap_cons,
    finishedFields, List.append_assoc]
  simp only [ht, Option.elim_some]
  rfl

/-! ## Catalogs -/

theorem declared_of_mem {r : RecordDecl} (hr : r ∈ c.records) : Declared c r :=
  Catalog.find?_eq_some_iff.2 ⟨hr, rfl⟩

/-- Between calls a struct has the fields that its declaration gives, resolved by the names that
lead to it. -/
theorem Grown.fields_eq {s : WalkState} {frames : List Frame} (h : Grown c (Declared c) s frames)
    (hguard : s.guard = .empty) {r : RecordDecl} (hr : Declared c r) {t : Struct}
    (ht : s.graph.find? r.name = some t) :
    (∀ name ∈ references r.fields, ∃ t', s.graph.find? name = some t') ∧
      ∃ guard : CycleGuard,
        (∀ name ∈ s.graph.names, name ∈ guard.names ↔ LeadsTo c s.graph name r.name) ∧
        t.fields = bodyFields s.graph guard r.name r.fields := by
  obtain ⟨f, hmem, hname⟩ := h.exists_mem_frame (h.indexed.mem_names_of_find? ht)
  have hdecl : f.decl = r := by
    have hknown : c.find? f.name = some f.decl := h.known_decl hmem
    rw [hname] at hknown
    exact Option.some.inj (hknown.symm.trans hr)
  have hsettled := h.settled_of_guard_eq_empty hguard hmem
  refine ⟨fun name hname => ?_, f.guard, fun name hn => ?_, ?_⟩
  · rw [← hdecl] at hname
    exact h.indexed.exists_find?_of_mem_names (hsettled.met name hname)
  · rw [← hname]
    exact h.mem_guard_iff_leadsTo hguard hmem hn
  · rw [hsettled.fields t (hname ▸ ht), Frame.fieldsIn, hname, hdecl]

namespace Reflector

/-- After requests by name every struct comes from the declaration of its name in the catalog. -/
theorem after_reflect_grown (c : Catalog) (names : List String) :
    ∃ frames, Grown c (Declared c) (after c (names.map .reflect)).toWalkState frames :=
  after_grown (fun _ hr => declared_of_mem hr) _ fun r hr => by
    obtain ⟨_, _, h⟩ := List.mem_map.1 hr
    cases h

/-- After requests by name, the fields of a record that embeds another one are those of the
declarations in front, copies of the fields of the embedded record, and those of the declarations
behind; only the optionality and the planning hint of a copy can differ.  The copies are missing if
and only if the embedded record leads to the one that embeds it.  The other references are resolved
by the names that lead to the record. -/
theorem after_embedded_fields (c : Catalog) (names : List String) {r : RecordDecl} {s : Struct}
    {front back : List FieldDecl} {d : FieldDecl} {e : String}
    (hr : c.find? r.name = some r)
    (hs : (after c (names.map .reflect)).graph.find? r.name = some s)
    (hfields : r.fields = front ++ d :: back) (hexported : d.exported = true)
    (hembedded : d.embedded = true) (he : d.ty.recordName? = some e) :
    let g := (after c (names.map .reflect)).graph
    ∃ t guard, g.find? e = some t ∧
      (∀ name ∈ g.names, name ∈ guard.names ↔ LeadsTo c g name r.name) ∧
      (LeadsTo c g e r.name → s.fields =
        bodyFields g guard r.name front ++ bodyFields g guard r.name back) ∧
      (¬LeadsTo c g e r.name → s.fields =
        bodyFields g guard r.name front ++ t.fields.map (overrideField r.name) ++
          bodyFields g guard r.name back) ∧
      ∀ f ∈ t.fields, ∃ optionality planHint,
        overrideField r.name f = { f with optionality, planHint } := by
  obtain ⟨frames, h⟩ := after_reflect_grown c names
  obtain ⟨hmet, guard, hleads, hfieldsEq⟩ := h.fields_eq (after_guard c _) hr hs
  have hreference : e ∈ references r.fields := mem_references.2
    ⟨{ item := .embed e }, by rw [hfields, bodySteps_embed hexported hembedded he]; simp, rfl⟩
  obtain ⟨t, ht⟩ := hmet e hreference
  have hname : e ∈ (after c (names.map .reflect)).graph.names := by
    obtain ⟨id, hid, -⟩ := Option.bind_eq_some_iff.1 ht
    exact h.indexed.mem_names_iff.2 ⟨id, hid⟩
  rw [hfields, bodyFields_embed hexported hembedded he ht] at hfieldsEq
  refine ⟨t, guard, ht, hleads, fun hlead => ?_, fun hlead => ?_,
    fun f _ => overrideField_same r.name f⟩
  · rw [hfieldsEq, if_pos ((CycleGuard.contains_iff ..).2 ((hleads e hname).2 hlead)),
      List.append_nil]
  · rw [hfieldsEq, if_neg fun hc => hlead ((hleads e hname).1 ((CycleGuard.contains_iff ..).1 hc))]

def mtuField : FieldDecl where
  name := "Mtu"
  ty := .scalar .uint
  tag := some { name := "mtu", node := .attr }

/-- A record of an own field and of what interfaces have in common. -/
def interfaceRecord : RecordDecl where
  name := "Interface"
  fields := [mtuField, .embed (.named "Common")]

/-- What interfaces have in common refers to another interface. -/
def interfaceCatalog : Catalog :=
  .ofRecords "network"
    [{ name := "Common"
       fields :=
        [{ name := "Model", ty := .scalar .string, tag := some { name := "model", node := .attr } },
         { name := "Peer", ty := .optional (.named "Interface")
           tag := some { name := "peer", node := .element } }] },
     interfaceRecord]

/-- The interface is asked for first: it leads to what it embeds, which does not lead back. -/
theorem after_embedded_fields_interface :
    let g := (after interfaceCatalog (["Interface"].map .reflect)).graph
    ∃ s t guard, g.find? "Interface" = some s ∧ g.find? "Common" = some t ∧
      s.fields = bodyFields g guard "Interface" [mtuField] ++
        t.fields.map (overrideField "Interface") ++ bodyFields g guard "Interface" [] := by
  intro g
  have hinterface : g.lookup "Interface" = some 0 := by decide +kernel
  have hcommon : g.lookup "Common" = some 1 := by decide +kernel
  have hlead : ¬LeadsTo interfaceCatalog g "Common" "Interface" := fun hlead => by
    rcases Relation.ReflTransGen.cases_tail hlead with heq | ⟨_, -, -, i, j, hi, hj, hle⟩
    · exact absurd heq (by decide)
    · rw [hcommon] at hi
      rw [hinterface] at hj
      cases hi
      cases hj
      exact absurd hle (by decide)
  obtain ⟨s, hs⟩ := Option.isSome_iff_exists.1 (by decide +kernel : (g.find? "Interface").isSome)
  have hfields : interfaceRecord.fields = [mtuField] ++ .embed (.named "Common") :: [] := rfl
  obtain ⟨t, guard, ht, -, -, hcopy, -⟩ :=
    after_embedded_fields interfaceCatalog ["Interface"] (by rfl) hs hfields rfl rfl rfl
  exact ⟨s, t, guard, hs, ht, hcopy hlead⟩

/-- What is embedded is asked for first: the interface has none of its fields, although the catalog
is valid. -/
theorem embedded_fields_missing :
    interfaceCatalog.validate = .ok () ∧
    ∃ s t, (after interfaceCatalog [.reflect "Common"]).graph.find? "Interface" = some s ∧
      (after interfaceCatalog [.reflect "Common"]).graph.find? "Common" = some t ∧
      ¬t.fields.map Field.name <:+: s.fields.map Field.name := by
  refine ⟨by rfl, ?_⟩
  have hnames : ((after interfaceCatalog [.reflect "Common"]).graph.find? "Interface").map
      (fun s => s.fields.map Field.name) = some ["Mtu"] := by decide +kernel
  have hnames' : ((after interfaceCatalog [.reflect "Common"]).graph.find? "Common").map
      (fun s => s.fields.map Field.name) = some ["Model", "Peer"] := by decide +kernel
  obtain ⟨s, hs, hfields⟩ := Option.map_eq_some_iff.1 hnames
  obtain ⟨t, ht, hfields'⟩ := Option.map_eq_some_iff.1 hnames'
  refine ⟨s, t, hs, ht, fun hinfix => ?_⟩
  rw [hfields, hfields'] at hinfix
  exact absurd hinfix.length_le (by decide)

end Reflector

end RecordSchema.Reflection
