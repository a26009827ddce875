import Mathlib.Data.Set.List
import RecordSchema.Catalog.Build
import RecordSchema.Proofs.Generation.Position
import RecordSchema.Proofs.Reflection.Links
import RecordSchema.Proofs.Schema.Chain

/-!
# What coverage reports

Coverage walks along paths and passes over what it has met.  In a graph whose output names are
different within each struct and have no dots, paths tell chains of fields apart, so that nothing is
passed over: every chain from the root is visited once, and those without documentation are
reported.
-/

namespace RecordSchema.Generation

open Docs (DocRegistry)
open Reflection (Call Reflector exists_runs_fieldWalk)
open Schema (Field Graph StructId)

variable {g : Graph} {s : StructId} {p : Position} {a b : PlacedField}

/-! ## Chains of a root -/

/-- A field at the end of a chain of fields. -/
structure FieldChain where
  above : List Field
  field : Field
deriving DecidableEq

namespace FieldChain

variable {ch ch' : FieldChain}

/-- The chain goes down from the struct at `s`. -/
def From (g : Graph) (s : StructId) (ch : FieldChain) : Prop :=
  ∃ t, g.Chain s ch.above t ∧ ch.field ∈ g.fieldsAt t

/-- Where the field is, if the chain starts at `p`. -/
def position (p : Position) (ch : FieldChain) : Position := (p.along ch.above).below ch.field

def placed (p : Position) (ch : FieldChain) : PlacedField := ⟨ch.field, ch.position p⟩

def context (p : Position) (ch : FieldChain) : FieldContext := .ofField ch.field (ch.position p)

def isDocumented (registry : Option DocRegistry) (p : Position) (ch : FieldChain) : Bool :=
  registry.any (·.contains (ch.position p).path)

theorem position_eq_along (p : Position) (ch : FieldChain) :
    ch.position p = p.along (ch.above ++ [ch.field]) :=
  (p.along_concat ch.above ch.field).symm

theorem From.exists_struct (h : ch.From g s) :
    ∀ f ∈ ch.above ++ [ch.field], ∃ t ∈ g.structs, f ∈ t.fields := by
  obtain ⟨t, hchain, hfield⟩ := h
  obtain ⟨r, hr, hf⟩ := Graph.mem_fieldsAt_iff.1 hfield
  refine List.forall_mem_append.2 ⟨hchain.exists_struct, fun f hmem => ?_⟩
  rw [List.mem_singleton.1 hmem]
  exact ⟨r, List.mem_of_getElem? hr, hf⟩

/-- Chains of a root are told by their paths. -/
theorem From.ext_path (h : ch.From g s) (h' : ch'.From g s) (hdistinct : g.DistinctNames)
    (hdots : ∀ t ∈ g.structs, ∀ f ∈ t.fields, '.' ∉ f.outputName.toList)
    (hpath : (ch.position p).path = (ch'.position p).path) : ch = ch' := by
  have hnames {ch : FieldChain} (h : ch.From g s) :
      ∀ f ∈ ch.above ++ [ch.field], '.' ∉ f.outputName.toList := by
    intro f hf
    obtain ⟨t, ht, hmem⟩ := h.exists_struct f hf
    exact hdots t ht f hmem
  rw [position_eq_along, position_eq_along] at hpath
  have heq := Position.outputNames_eq_of_path_eq (hnames h) (hnames h') hpath
  obtain ⟨t, hchain, hfield⟩ := h
  obtain ⟨t', hchain', hfield'⟩ := h'
  obtain ⟨habove, hlast⟩ := hdistinct.chain_ext hchain hfield hchain' hfield' heq
  cases ch
  cases ch'
  cases habove
  cases hlast
  rfl

end FieldChain

/-- The walk over fields reaches the ends of the chains. -/
theorem exists_reaches_iff :
    (∃ a ∈ placedFields g s p, (fieldWalk g).Reaches a b) ↔
      ∃ ch : FieldChain, ch.From g s ∧ ch.placed p = b := by
  constructor
  · rintro ⟨a, ha, hreach⟩
    induction hreach using Relation.ReflTransGen.head_induction_on generalizing s p with
    | refl =>
        obtain ⟨f, hf, rfl⟩ := List.mem_map.1 ha
        exact ⟨⟨[], f⟩, ⟨s, .nil s, hf⟩, rfl⟩
    | @head a d hstep _ ih =>
        obtain ⟨f, hf, rfl⟩ := List.mem_map.1 ha
        rw [fieldWalk] at hstep
        simp only at hstep
        cases ht : f.nestedTarget? with
        | none =>
            rw [ht] at hstep
            cases hstep
        | some t =>
            rw [ht] at hstep
            obtain ⟨ch, ⟨u, hchain, hfield⟩, rfl⟩ := ih hstep
            exact ⟨⟨f :: ch.above, ch.field⟩, ⟨u, .cons hf ht hchain, hfield⟩, rfl⟩
  · rintro ⟨⟨above, field⟩, ⟨t, hchain, hfield⟩, rfl⟩
    simp only at hchain hfield
    induction hchain generalizing p with
    | nil => exact ⟨⟨field, p.below field⟩, List.mem_map_of_mem hfield, .refl⟩
    | @cons s m t f above mem opens _ ih =>
        obtain ⟨d, hd, hreach⟩ := ih (p := p.below f) hfield
        refine ⟨⟨f, p.below f⟩, List.mem_map_of_mem mem, .head ?_ hreach⟩
        rw [fieldWalk]
        simp only [opens]
        exact hd

/-! ## Reports -/

/-- The contexts report the undocumented fields below a root: one for each chain that is not
documented, at the position of the chain, and all with different paths. -/
structure Reports (g : Graph) (root : PathRoot) (registry : Option DocRegistry)
    (contexts : List FieldContext) : Prop where
  chains : ∃ chains : List FieldChain, chains.Nodup ∧ (∀ ch, ch ∈ chains ↔ ch.From g root.id) ∧
    contexts =
      (chains.filter (!·.isDocumented registry root.position)).map (·.context root.position)
  nodup : (contexts.map (·.path)).Nodup

/-- In a graph without cycles whose paths tell chains apart, coverage reports just what is not
documented. -/
theorem reports_collectFields {order : List StructId} (horder : g.LinkOrder order)
    (hdistinct : g.DistinctNames)
    (hdots : ∀ t ∈ g.structs, ∀ f ∈ t.fields, '.' ∉ f.outputName.toList) (root : PathRoot)
    (registry : Option DocRegistry) :
    Reports g root registry (collectFields g root registry) := by
  obtain ⟨v, hruns, hnodes⟩ := exists_runs_fieldWalk horder root
  have hnodup : ((reachedFields g root).map (·.position.path)).Nodup := by
    rw [← hnodes, List.map_reverse]
    exact List.nodup_reverse.2 (hruns.consistent (Schema.PathWalk.Visited.consistent_empty _)).nodup
  have hreached : ∀ b, b ∈ reachedFields g root ↔
      ∃ ch : FieldChain, ch.From g root.id ∧ ch.placed root.position = b := by
    intro b
    rw [← hnodes, List.mem_reverse, ← exists_reaches_iff]
    refine hruns.mem_nodes_iff fun a ha b hb a' ha' b' hb' hpath => ?_
    obtain ⟨ch, hch, rfl⟩ := exists_reaches_iff.1 ⟨a, ha, hb⟩
    obtain ⟨ch', hch', rfl⟩ := exists_reaches_iff.1 ⟨a', ha', hb'⟩
    rw [hch.ext_path hch' hdistinct hdots hpath]
  -- the visited fields are the ends of chains, listed in the same order
  obtain ⟨chains, hchains, hplaced⟩ : ∃ chains : List FieldChain,
      (∀ ch ∈ chains, ch.From g root.id) ∧
        chains.map (·.placed root.position) = reachedFields g root := by
    have hrange : reachedFields g root ∈ Set.range
        (List.map fun ch : { ch : FieldChain // ch.From g root.id } =>
          ch.1.placed root.position) := by
      rw [Set.range_list_map]
      intro b hb
      obtain ⟨ch, hch, rfl⟩ := (hreached b).1 hb
      exact ⟨⟨ch, hch⟩, rfl⟩
    obtain ⟨chains, hchains⟩ := hrange
    refine ⟨chains.map Subtype.val, fun ch hch => ?_, by rw [List.map_map]; exact hchains⟩
    obtain ⟨⟨ch, hfrom⟩, -, rfl⟩ := List.mem_map.1 hch
    exact hfrom
  have hcontexts : collectFields g root registry =
      (chains.filter (!·.isDocumented registry root.position)).map
        (·.context root.position) := by
    rw [collectFields, ← hplaced, List.filter_map, List.map_map]
    rfl
  have hpaths : (chains.map fun ch => (ch.position root.position).path).Nodup := by
    have heq : chains.map (fun ch => (ch.position root.position).path) =
        (chains.map (·.placed root.position)).map (·.position.path) := by
      rw [List.map_map]
      rfl
    rw [heq, hplaced]
    exact hnodup
  refine ⟨⟨chains, hpaths.of_map _, fun ch => ⟨hchains ch, fun hch => ?_⟩, hcontexts⟩, ?_⟩
  · have hmem := (hreached (ch.placed root.position)).2 ⟨ch, hch, rfl⟩
    rw [← hplaced] at hmem
    obtain ⟨ch', hch', heq⟩ := List.mem_map.1 hmem
    have hpath := congrArg (fun b : PlacedField => b.position.path) heq
    rwa [← (hchains ch' hch').ext_path hch hdistinct hdots hpath]
  · rw [hcontexts, List.map_map]
    exact hpaths.sublist (List.filter_sublist.map _)

end RecordSchema.Generation

namespace RecordSchema.Reflection.Reflector

open Docs (DocRegistry)
open Generation (PathRoot Reports collectFields)
open Schema (Field)

/-- After any calls, if output names are different within each struct and have no dots, coverage
reports the chains of every root that are not documented and nothing else.  Only objects and lists
of objects lead further down. -/
theorem after_collectFields_reports (c : Catalog) (calls : List Call)
    (hdistinct : (after c calls).graph.DistinctNames)
    (hdots : ∀ t ∈ (after c calls).graph.structs, ∀ f ∈ t.fields, '.' ∉ f.outputName.toList) :
    (∀ (root : PathRoot) (registry : Option DocRegistry),
      Reports (after c calls).graph root registry
        (collectFields (after c calls).graph root registry)) ∧
    ∀ t ∈ (after c calls).graph.structs, ∀ f ∈ t.fields,
      f.nestedTarget?.isSome = true ↔ f.form = .object ∨ f.form = .objectList := by
  obtain ⟨order, horder⟩ := after_exists_linkOrder c calls
  refine ⟨Generation.reports_collectFields horder hdistinct hdots, fun t ht f hf => ?_⟩
  obtain ⟨frames, h⟩ := after_grown (c := c) (fun _ _ => trivial) calls fun _ _ => trivial
  obtain ⟨form, hform⟩ := h.formed t ht f hf
  rw [← hform.eq_form]
  exact hform.nestedTarget?_isSome_iff

/-- A domain and its network, with one kind of route; the network knows its users. -/
def routeCatalog : Catalog :=
  .ofRecords "domain"
    [{ name := "Domain"
       fields :=
        [.inElement "Network" (.maybe "Network") "network",
         .inElement "Primary" (.named "Route") "primary",
         .inElement "Backup" (.named "Route") "backup"] },
     { name := "Network"
       fields :=
        [.inElement "Default" (.named "Route") "default",
         .inElement "Users" (.many "Domain") "user"] },
     { name := "Route"
       fields := [.inAttribute "Gateway" .string "gateway"] }]

/-- The network of a domain is documented and left out, the gateway below it is reported. -/
theorem after_collectFields_reports_gateway :
    let g := (after routeCatalog [.reflect "Domain"]).graph
    let registry : DocRegistry :=
      ⟨[⟨{ path := "domain.network", description := "What the domain is connected to." },
        "network.yaml"⟩]⟩
    let contexts := collectFields g ⟨0, ⟨"domain", "domain"⟩⟩ (some registry)
    g.DistinctNames ∧ (∀ t ∈ g.structs, ∀ f ∈ t.fields, '.' ∉ f.outputName.toList) ∧
      (∃ x ∈ contexts, x.path = "domain.network.default.gateway" ∧
        x.xmlPath = "domain.network.default.@gateway") ∧
      ∀ x ∈ contexts, x.path ≠ "domain.network" := by
  intro g registry contexts
  have hdistinct : g.DistinctNames := by
    rw [Schema.Graph.DistinctNames]
    decide +kernel
  have hdots : ∀ t ∈ g.structs, ∀ f ∈ t.fields, '.' ∉ f.outputName.toList := by decide +kernel
  obtain ⟨⟨chains, -, hchains, hcontexts⟩, -⟩ :=
    (after_collectFields_reports routeCatalog [.reflect "Domain"] hdistinct hdots).1
      ⟨0, ⟨"domain", "domain"⟩⟩ (some registry)
  refine ⟨hdistinct, hdots, ?_, fun x hx hpath => ?_⟩
  · have hfields : ∃ network ∈ g.fieldsAt 0, ∃ route ∈ g.fieldsAt 1, ∃ gateway ∈ g.fieldsAt 2,
        network.nestedTarget? = some 1 ∧ route.nestedTarget? = some 2 ∧
        Generation.Position.below (Generation.Position.along ⟨"domain", "domain"⟩ [network, route])
          gateway = ⟨"domain.network.default.gateway", "domain.network.default.@gateway"⟩ := by
      decide +kernel
    obtain ⟨network, hnetwork, route, hroute, gateway, hgateway, hopen, hopen', hposition⟩ :=
      hfields
    let ch : Generation.FieldChain := ⟨[network, route], gateway⟩
    have hch : ch ∈ chains :=
      (hchains ch).2 ⟨2, .cons hnetwork hopen (.cons hroute hopen' (.nil 2)), hgateway⟩
    have hnew : ch.isDocumented (some registry) ⟨"domain", "domain"⟩ = false := by
      rw [Generation.FieldChain.isDocumented, Generation.FieldChain.position, hposition]
      decide +kernel
    refine ⟨ch.context ⟨"domain", "domain"⟩, ?_, ?_⟩
    · change _ ∈ collectFields _ _ _
      rw [hcontexts]
      exact List.mem_map_of_mem (List.mem_filter.2 ⟨hch, by rw [hnew]; rfl⟩)
    · rw [Generation.FieldChain.context, Generation.FieldChain.position, hposition]
      exact ⟨rfl, rfl⟩
  · replace hx : x ∈ collectFields _ _ _ := hx
    rw [hcontexts] at hx
    obtain ⟨ch, hch, rfl⟩ := List.mem_map.1 hx
    replace hpath : (ch.position ⟨"domain", "domain"⟩).path = "domain.network" := hpath
    have hnew := (List.mem_filter.1 hch).2
    rw [Generation.FieldChain.isDocumented, hpath] at hnew
    revert hnew
    decide +kernel

end RecordSchema.Reflection.Reflector
