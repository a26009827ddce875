import Mathlib.Data.List.Nodup
import Mathlib.Logic.Relation
import RecordSchema.Proofs.Catalog.Part

/-!
# References between records

What a declaration refers to, told by its fields alone.  A field that shows in documents mentions
the record it holds, by itself or in a list; an embedded field mentions the record it embeds, and
one that embeds a record declared in place mentions what the fields of that record do.  A record
reaches what it mentions, what that mentions, and so on, and itself.

Below a record that reaches no cycle, every mention has fewer declared records before it, so what
holds of such records can be proved by following what they mention.
-/

namespace RecordSchema

namespace TypeExpr

theorem stripOptional_ne_optional : ∀ ty inner : TypeExpr, ty.stripOptional ≠ .optional inner
  | optional ty, inner => by
      rw [stripOptional]
      exact stripOptional_ne_optional ty inner
  | scalar _, _ | named _, _ | inline _, _ | list _, _ => by simp [stripOptional]

theorem recordName?_eq_some_iff {ty : TypeExpr} {name : String} :
    ty.recordName? = some name ↔ ty.stripOptional = .named name := by
  rw [recordName?]
  split
  · rename_i h
    rw [h, Option.some_inj, named.injEq]
  · rename_i h
    constructor
    · intro hnone
      cases hnone
    · intro hname
      exact absurd hname (h name)

theorem scalar?_eq_some_iff {ty : TypeExpr} {kind : ScalarKind} :
    ty.scalar? = some kind ↔ ty.stripOptional = .scalar kind := by
  rw [scalar?]
  split
  · rename_i h
    rw [h, Option.some_inj, scalar.injEq]
  · rename_i h
    constructor
    · intro hnone
      cases hnone
    · intro hkind
      exact absurd hkind (h kind)

/-- The type names a record, by itself or as the element of a list. -/
def Names (ty : TypeExpr) (name : String) : Prop :=
  ty.recordName? = some name ∨
    ∃ element, ty.stripOptional = .list element ∧ element.recordName? = some name

end TypeExpr

/-! ## What fields mention -/

/-- The fields embed the record `name`, themselves or within an embedded record in place. -/
inductive Embeds : List FieldDecl → String → Prop
  | record {fields : List FieldDecl} {f : FieldDecl} {name : String} (mem : f ∈ fields)
      (exported : f.exported = true) (embedded : f.embedded = true)
      (type : f.ty.recordName? = some name) : Embeds fields name
  | inline {fields : List FieldDecl} {f : FieldDecl} {r : RecordDecl} {name : String}
      (mem : f ∈ fields) (exported : f.exported = true) (embedded : f.embedded = true)
      (type : f.ty.stripOptional = .inline r) (inner : Embeds r.fields name) : Embeds fields name

/-- The fields mention the record `name`: they hold it, list it or embed it. -/
inductive Mentions : List FieldDecl → String → Prop
  | record {fields : List FieldDecl} {f : FieldDecl} {name : String} (mem : f ∈ fields)
      (serialized : f.isSerialized = true) (plain : f.embedded = false)
      (type : f.ty.recordName? = some name) : Mentions fields name
  | list {fields : List FieldDecl} {f : FieldDecl} {element : TypeExpr} {name : String}
      (mem : f ∈ fields) (serialized : f.isSerialized = true) (plain : f.embedded = false)
      (type : f.ty.stripOptional = .list element) (of : element.recordName? = some name) :
      Mentions fields name
  | embedded {fields : List FieldDecl} {f : FieldDecl} {name : String} (mem : f ∈ fields)
      (exported : f.exported = true) (embedded : f.embedded = true)
      (type : f.ty.recordName? = some name) : Mentions fields name
  | inline {fields : List FieldDecl} {f : FieldDecl} {r : RecordDecl} {name : String}
      (mem : f ∈ fields) (exported : f.exported = true) (embedded : f.embedded = true)
      (type : f.ty.stripOptional = .inline r) (inner : Mentions r.fields name) :
      Mentions fields name

/-- The fields declare `d`, which shows in documents, themselves or within an embedded record in
place. -/
inductive DeclaresField : List FieldDecl → FieldDecl → Prop
  | here {fields : List FieldDecl} {d : FieldDecl} (mem : d ∈ fields)
      (serialized : d.isSerialized = true) (plain : d.embedded = false) : DeclaresField fields d
  | inline {fields : List FieldDecl} {f d : FieldDecl} {r : RecordDecl} (mem : f ∈ fields)
      (exported : f.exported = true) (embedded : f.embedded = true)
      (type : f.ty.stripOptional = .inline r) (inner : DeclaresField r.fields d) :
      DeclaresField fields d

theorem Mentions.subset {fields fields' : List FieldDecl} {name : String}
    (h : Mentions fields name) (hsub : fields ⊆ fields') : Mentions fields' name := by
  cases h with
  | record mem serialized plain type => exact .record (hsub mem) serialized plain type
  | list mem serialized plain type of => exact .list (hsub mem) serialized plain type of
  | embedded mem exported embedded type => exact .embedded (hsub mem) exported embedded type
  | inline mem exported embedded type inner =>
      exact .inline (hsub mem) exported embedded type inner

theorem Embeds.subset {fields fields' : List FieldDecl} {name : String}
    (h : Embeds fields name) (hsub : fields ⊆ fields') : Embeds fields' name := by
  cases h with
  | record mem exported embedded type => exact .record (hsub mem) exported embedded type
  | inline mem exported embedded type inner =>
      exact .inline (hsub mem) exported embedded type inner

namespace Catalog

variable {c : Catalog} {a b m n : String}

/-- The catalog's declaration of `a` mentions `b`. -/
def Mentions (c : Catalog) (a b : String) : Prop :=
  ∃ r, c.find? a = some r ∧ RecordSchema.Mentions r.fields b

/-- The catalog's declaration of `a` embeds `b`. -/
def Embeds (c : Catalog) (a b : String) : Prop :=
  ∃ r, c.find? a = some r ∧ RecordSchema.Embeds r.fields b

/-- The record `a` is `b`, or it mentions a record that reaches `b`. -/
def Reaches (c : Catalog) : String → String → Prop := Relation.ReflTransGen c.Mentions

/-- No record that `n` reaches comes back to itself. -/
def AcyclicFrom (c : Catalog) (n : String) : Prop :=
  ∀ m, c.Reaches n m → ¬Relation.TransGen c.Mentions m m

/-- Names are distinct, so a catalog finds each of its declarations under its name. -/
theorem find?_eq_some_iff {r : RecordDecl} : c.find? n = some r ↔ r ∈ c.records ∧ r.name = n := by
  refine ⟨mem_of_find?_eq_some, ?_⟩
  rintro ⟨hr, rfl⟩
  cases hfind : c.find? r.name with
  | none => exact absurd (beq_self_eq_true r.name) (List.find?_eq_none.1 hfind r hr)
  | some r' =>
      obtain ⟨hr', hname⟩ := mem_of_find?_eq_some hfind
      rw [List.inj_on_of_nodup_map c.nodup hr' hr hname]

theorem contains_of_find?_eq_some {r : RecordDecl} (h : c.find? a = some r) :
    c.contains a = true := by
  rw [contains, h, Option.isSome_some]

theorem AcyclicFrom.of_mentions (h : c.AcyclicFrom n) (hm : c.Mentions n m) : c.AcyclicFrom m :=
  fun k hk => h k (Relation.ReflTransGen.head hm hk)

/-! ## Ranks -/

open Classical in
/-- How many declared records a record reaches. -/
noncomputable def rank (c : Catalog) (n : String) : Nat :=
  (c.names.filter fun m => c.Reaches n m).length

/-- Without cycles, what a record mentions has a smaller rank: the record itself is not reached from
there. -/
theorem rank_lt (h : c.AcyclicFrom n) (hm : c.Mentions n m) : c.rank m < c.rank n := by
  classical
  have hn : n ∈ c.names := by
    obtain ⟨r, hr, -⟩ := hm
    exact (c.mem_names_iff_contains n).2 (contains_of_find?_eq_some hr)
  have hback : ¬c.Reaches m n := fun hback =>
    h n .refl (Relation.TransGen.head'_iff.2 ⟨m, hm, hback⟩)
  have hsub : c.names.filter (fun k => c.Reaches m k) =
      (c.names.filter fun k => c.Reaches n k).filter fun k => c.Reaches m k := by
    rw [List.filter_filter]
    refine List.filter_congr fun k _ => ?_
    rw [Bool.eq_iff_iff, Bool.and_eq_true, decide_eq_true_eq, decide_eq_true_eq]
    exact ⟨fun hk => ⟨hk, Relation.ReflTransGen.head hm hk⟩, fun hk => hk.1⟩
  rw [rank, rank, hsub]
  refine List.length_filter_lt_length_iff_exists.2 ⟨n, List.mem_filter.2 ⟨hn, ?_⟩, ?_⟩
  · exact decide_eq_true .refl
  · exact fun hmem => hback (of_decide_eq_true hmem)

/-- Conversely nothing that `n` reaches comes back to itself if ranks fall along the way. -/
theorem AcyclicFrom.of_rank (rank : String → Nat)
    (h : ∀ m, c.Reaches n m → ∀ k, c.Mentions m k → rank k < rank m) : c.AcyclicFrom n := by
  intro m hm hback
  have hlt : ∀ k, Relation.TransGen c.Mentions m k → rank k < rank m := by
    intro k hk
    induction hk with
    | single hstep => exact h m hm _ hstep
    | tail hk hstep ih =>
        exact Nat.lt_trans (h _ (hm.trans hk.to_reflTransGen) _ hstep) ih
  exact Nat.lt_irrefl _ (hlt m hback)

/-- What holds of a record as soon as it holds of all that the record mentions holds of every record
that reaches no cycle. -/
@[elab_as_elim]
theorem AcyclicFrom.induction {motive : (n : String) → c.AcyclicFrom n → Prop}
    (step : ∀ n (h : c.AcyclicFrom n),
      (∀ m (hm : c.Mentions n m), motive m (h.of_mentions hm)) → motive n h)
    {n : String} (h : c.AcyclicFrom n) : motive n h := by
  induction hrank : c.rank n using Nat.strongRecOn generalizing n with
  | ind k ih =>
      subst hrank
      exact step n h fun m hm => ih _ (rank_lt h hm) (h.of_mentions hm) rfl

end Catalog

end RecordSchema
