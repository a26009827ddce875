import Mathlib.Data.List.Induction
import RecordSchema.Catalog.Chain
import RecordSchema.Proofs.Catalog.Reference
import RecordSchema.Proofs.Catalog.WellFormed

/-!
# Chains of records

The records of a chain are called after their levels, and no level is called like the size that they
all have.  A level refers to the size and to the next level, the last one to the first, and the size
to nothing; so every chain is valid.
-/

namespace RecordSchema

/-- Fields without records in place enclose themselves only. -/
theorem Encloses.eq_of_forall_not_inline {outer inner : List FieldDecl} (h : Encloses outer inner)
    (hplain : ∀ f ∈ outer, ∀ r, ¬f.ty.Wraps (.inline r)) : inner = outer := by
  cases h with
  | refl => rfl
  | inline mem type => exact absurd type (hplain _ mem _)

/-- Of fields that are not embedded those that show in documents mention the records they name. -/
theorem mentions_iff_of_forall_not_embedded {fields : List FieldDecl} {name : String}
    (h : ∀ f ∈ fields, f.embedded = false) :
    Mentions fields name ↔ ∃ f ∈ fields, f.isSerialized = true ∧ f.ty.Names name := by
  constructor
  · rintro (⟨mem, serialized, -, type⟩ | ⟨mem, serialized, -, type, of⟩ |
      ⟨mem, -, embedded, -⟩ | ⟨mem, -, embedded, -, -⟩)
    · exact ⟨_, mem, serialized, .inl type⟩
    · exact ⟨_, mem, serialized, .inr ⟨_, type, of⟩⟩
    · exact absurd ((h _ mem).symm.trans embedded) Bool.false_ne_true
    · exact absurd ((h _ mem).symm.trans embedded) Bool.false_ne_true
  · rintro ⟨f, hf, hserialized, hname | ⟨element, hlist, hname⟩⟩
    · exact .record hf hserialized (h f hf) hname
    · exact .list hf hserialized (h f hf) hlist hname

theorem TypeExpr.not_names_scalar {kind : ScalarKind} {name : String} :
    ¬(TypeExpr.scalar kind).Names name := by
  rintro (h | ⟨_, h, -⟩) <;> cases h

namespace Catalog

open FieldDecl TypeExpr

/-- A list of records with different names is kept as it is. -/
theorem records_ofRecords {package : String} {records : List RecordDecl}
    (h : (records.map RecordDecl.name).Nodup) : (ofRecords package records).records = records := by
  induction records using List.reverseRecOn with
  | nil => rfl
  | append_singleton records r ih =>
      rw [List.map_append, List.nodup_append] at h
      have hfresh : r.name ∉ (ofRecords package records).names := by
        rw [names, ih h.1]
        exact fun hmem => h.2.2 _ hmem _ (by simp) rfl
      rw [ofRecords, List.foldl_append, List.foldl_cons, List.foldl_nil, ← ofRecords, insert,
        insert?, dif_neg hfresh, Option.getD_some]
      exact congrArg (· ++ [r]) (ih h.1)

/-! ## Names -/

theorem toList_append_toString (text : String) (i : Nat) :
    (text ++ toString i).toList = text.toList ++ Nat.toDigits 10 i := by
  rw [String.toList_append, toString, instToStringNat, Nat.toList_repr]

/-- Names that differ in their numbers are different. -/
theorem append_toString_inj {text : String} {i j : Nat} :
    text ++ toString i = text ++ toString j ↔ i = j := by
  rw [← String.toList_inj, toList_append_toString, toList_append_toString,
    List.append_cancel_left_eq]
  constructor
  · intro h
    have hread (n : Nat) : Nat.ofDigitChars 10 (Nat.toDigits 10 n) 0 = n :=
      Nat.ofDigitChars_toDigits (by decide) (by decide)
    rw [← hread i, h, hread]
  · exact congrArg _

theorem levelName_inj {i j : Nat} : levelName i = levelName j ↔ i = j := append_toString_inj

theorem levelName_ne_size (level : Nat) : levelName level ≠ "Size" := by
  intro h
  have hhead := congrArg (fun s => s.toList.head?) h
  simp [levelName, toString, Nat.toList_repr] at hhead

theorem levelName_ne_empty (level : Nat) : levelName level ≠ "" := by
  intro h
  have hhead := congrArg (fun s => s.toList.head?) h
  simp [levelName, toString, Nat.toList_repr] at hhead

/-! ## Records -/

/-- An attribute of a level. -/
def levelAttribute (i : Nat) : FieldDecl :=
  (inAttribute s!"Attr{i}" .string s!"attr{i}").orEmpty

/-- The size of a level. -/
def levelSize : FieldDecl := inElement "Size" (maybe "Size") "size"

/-- The reference of a level to another one. -/
def levelChild (next : Nat) : FieldDecl := inElement "Child" (maybe (levelName next)) "child"

theorem fields_levelRecord (depth width level : Nat) :
    (levelRecord depth width level).fields =
      (List.range width).map levelAttribute ++ [levelSize, levelChild ((level + 1) % depth)] := rfl

theorem chain_max (depth width : Nat) : chain (max depth 1) width = chain depth width := by
  rw [chain, chain]
  simp

section Records

variable {depth : Nat} (hdepth : 0 < depth) (width : Nat)

include hdepth

theorem records_chain : (chain depth width).records =
    sizeRecord :: (List.range depth).map (levelRecord depth width) := by
  have hmax : max depth 1 = depth := Nat.max_eq_left hdepth
  rw [chain, hmax]
  refine records_ofRecords ?_
  rw [List.map_cons, List.map_map, List.nodup_cons]
  constructor
  · intro hmem
    obtain ⟨level, -, hname⟩ := List.mem_map.1 hmem
    exact levelName_ne_size level hname
  · exact List.nodup_range.map fun i j hij => levelName_inj.1 hij

theorem find?_chain_size : (chain depth width).find? "Size" = some sizeRecord :=
  find?_eq_some_iff.2 ⟨records_chain hdepth width ▸ List.mem_cons_self, rfl⟩

theorem find?_chain_level {level : Nat} (hlevel : level < depth) :
    (chain depth width).find? (levelName level) = some (levelRecord depth width level) := by
  refine find?_eq_some_iff.2 ⟨?_, rfl⟩
  rw [records_chain hdepth width]
  exact List.mem_cons_of_mem _ (List.mem_map_of_mem (List.mem_range.2 hlevel))

theorem mem_names_chain {name : String} :
    name ∈ (chain depth width).names ↔ name = "Size" ∨ ∃ level < depth, name = levelName level := by
  rw [names, records_chain hdepth width]
  simp only [List.map_cons, List.map_map, List.mem_cons, List.mem_map, List.mem_range,
    Function.comp_apply]
  exact or_congr Iff.rfl (exists_congr fun level => and_congr_right fun _ => eq_comm)

end Records

/-! ## References -/

/-- What holds of the attributes, the size and the reference holds of all fields of a level. -/
theorem forall_mem_levelRecord {motive : FieldDecl → Prop} {depth width level : Nat}
    (attr : ∀ i, motive (levelAttribute i)) (size : motive levelSize)
    (child : motive (levelChild ((level + 1) % depth))) :
    ∀ f ∈ (levelRecord depth width level).fields, motive f := by
  intro f hf
  rw [fields_levelRecord] at hf
  rcases List.mem_append.1 hf with hf | hf
  · obtain ⟨i, -, rfl⟩ := List.mem_map.1 hf
    exact attr i
  · rcases List.mem_cons.1 hf with rfl | hf
    · exact size
    · rw [List.mem_singleton.1 hf]
      exact child

theorem names_maybe_iff {record name : String} : (maybe record).Names name ↔ name = record := by
  rw [Names, recordName?_eq_some_iff]
  simp [maybe, stripOptional, eq_comm]

theorem mentions_levelRecord_iff {depth width level : Nat} {name : String} :
    RecordSchema.Mentions (levelRecord depth width level).fields name ↔
      name = "Size" ∨ name = levelName ((level + 1) % depth) := by
  rw [mentions_iff_of_forall_not_embedded (forall_mem_levelRecord (fun _ => rfl) rfl rfl)]
  constructor
  · rintro ⟨f, hf, -, hname⟩
    revert hname
    refine forall_mem_levelRecord (motive := fun f => f.ty.Names name → _) (fun i hname => ?_)
      (fun hname => ?_) (fun hname => ?_) f hf
    · exact absurd hname not_names_scalar
    · exact .inl (names_maybe_iff.1 hname)
    · exact .inr (names_maybe_iff.1 hname)
  · rw [fields_levelRecord]
    rintro (rfl | rfl)
    · exact ⟨levelSize, by simp, rfl, names_maybe_iff.2 rfl⟩
    · exact ⟨levelChild _, by simp, rfl, names_maybe_iff.2 rfl⟩

theorem exists_scalar_of_mem_sizeRecord : ∀ f ∈ sizeRecord.fields, ∃ kind, f.ty = .scalar kind := by
  intro f hf
  rcases List.mem_cons.1 hf with rfl | hf
  · exact ⟨_, rfl⟩
  · rw [List.mem_singleton.1 hf]
    exact ⟨_, rfl⟩

theorem not_mentions_sizeRecord {name : String} :
    ¬RecordSchema.Mentions sizeRecord.fields name := by
  rw [mentions_iff_of_forall_not_embedded (by decide)]
  rintro ⟨f, hf, -, hname⟩
  obtain ⟨kind, hkind⟩ := exists_scalar_of_mem_sizeRecord f hf
  rw [hkind] at hname
  exact not_names_scalar hname

/-! ## Validity -/

theorem head?_levelAttribute (i : Nat) : (levelAttribute i).name.toList.head? = some 'A' := by
  simp [levelAttribute, inAttribute, orEmpty, toString]

theorem fieldsFit_levelRecord {depth : Nat} (hdepth : 0 < depth) (width level : Nat) :
    FieldsFit (chain depth width) (levelRecord depth width level).fields where
  names_nodup := by
    refine List.Nodup.filter _ ?_
    rw [fields_levelRecord, List.map_append, List.map_map, List.nodup_append]
    refine ⟨List.nodup_range.map fun i j hij => append_toString_inj.1 hij,
      by simp [levelSize, levelChild, inElement], ?_⟩
    rintro name hname _ hother rfl
    obtain ⟨i, -, hattr⟩ := List.mem_map.1 hname
    -- the names of attributes begin with another letter
    have hhead : (levelAttribute i).name.toList.head? = name.toList.head? :=
      congrArg (fun s => s.toList.head?) hattr
    rw [head?_levelAttribute] at hhead
    rcases List.mem_cons.1 hother with rfl | hother
    · simp [levelSize, inElement] at hhead
    · rw [List.mem_singleton.1 hother] at hhead
      simp [levelChild, inElement] at hhead
  embedded_untagged := forall_mem_levelRecord (fun _ h => by cases h) (fun h => by cases h)
    (fun h => by cases h)
  scalar_in_node := forall_mem_levelRecord (fun _ _ _ => ⟨.string, rfl⟩)
    (fun _ h => by simp [levelSize, inElement, FieldDecl.node?] at h)
    (fun _ h => by simp [levelChild, inElement, FieldDecl.node?] at h)
  charData_le_one := by
    rw [List.countP_eq_zero.2 (forall_mem_levelRecord (fun _ => Bool.false_ne_true)
      Bool.false_ne_true Bool.false_ne_true)]
    exact Nat.zero_le 1
  declared := by
    have hmaybe {record name : String} (h : (maybe record).Wraps (.named name)) :
        name = record := by
      simpa [maybe, wraps_optional_iff, wraps_named_iff] using h
    simp only [mem_names_chain hdepth width]
    refine forall_mem_levelRecord (fun _ name h => ?_) (fun name h => .inl (hmaybe h))
      (fun name h => .inr ⟨_, Nat.mod_lt _ hdepth, hmaybe h⟩)
    cases wraps_scalar_iff.1 h

theorem fieldsFit_sizeRecord (c : Catalog) : FieldsFit c sizeRecord.fields where
  names_nodup := by decide
  embedded_untagged := by decide
  scalar_in_node f hf _ _ := by
    obtain ⟨kind, hkind⟩ := exists_scalar_of_mem_sizeRecord f hf
    exact ⟨kind, by rw [hkind]; rfl⟩
  charData_le_one := by decide
  declared f hf name hname := by
    obtain ⟨kind, hkind⟩ := exists_scalar_of_mem_sizeRecord f hf
    rw [hkind] at hname
    cases wraps_scalar_iff.1 hname

/-- Chains of any depth and width are valid. -/
theorem validate_chain (depth width : Nat) : (chain depth width).validate = .ok () := by
  rw [← chain_max]
  have hdepth : 0 < max depth 1 := Nat.lt_of_lt_of_le Nat.one_pos (Nat.le_max_right ..)
  generalize max depth 1 = depth at hdepth
  rw [validate_eq_ok_iff_wellFormed]
  intro r hr fields hfields
  rw [records_chain hdepth width] at hr
  rcases List.mem_cons.1 hr with rfl | hr
  · have hplain : ∀ f ∈ sizeRecord.fields, ∀ r, ¬f.ty.Wraps (.inline r) := by
      intro f hf r hwraps
      obtain ⟨kind, hkind⟩ := exists_scalar_of_mem_sizeRecord f hf
      rw [hkind] at hwraps
      cases wraps_scalar_iff.1 hwraps
    rw [hfields.eq_of_forall_not_inline hplain]
    exact fieldsFit_sizeRecord _
  · obtain ⟨level, -, rfl⟩ := List.mem_map.1 hr
    have hplain : ∀ f ∈ (levelRecord depth width level).fields, ∀ r, ¬f.ty.Wraps (.inline r) := by
      have hmaybe {record : String} {r : RecordDecl} : ¬(maybe record).Wraps (.inline r) := by
        simp [maybe, wraps_optional_iff, wraps_named_iff]
      exact forall_mem_levelRecord (fun _ r h => by cases wraps_scalar_iff.1 h) (fun _ => hmaybe)
        fun _ => hmaybe
    rw [hfields.eq_of_forall_not_inline hplain]
    exact fieldsFit_levelRecord hdepth width level

/-! ## The way along a chain -/

section Way

variable {depth : Nat} (hdepth : 0 < depth) (width : Nat)

include hdepth

/-- Only levels mention anything: the size, and the level behind them. -/
theorem mentions_chain_iff {a b : String} :
    (chain depth width).Mentions a b ↔ ∃ level < depth, a = levelName level ∧
      (b = "Size" ∨ b = levelName ((level + 1) % depth)) := by
  constructor
  · rintro ⟨r, hr, hmention⟩
    have ha := (mem_names_iff_contains _ _).2 (contains_of_find?_eq_some hr)
    rcases (mem_names_chain hdepth width).1 ha with rfl | ⟨level, hlevel, rfl⟩
    · rw [find?_chain_size hdepth] at hr
      cases hr
      exact absurd hmention not_mentions_sizeRecord
    · rw [find?_chain_level hdepth width hlevel] at hr
      cases hr
      exact ⟨level, hlevel, rfl, mentions_levelRecord_iff.1 hmention⟩
  · rintro ⟨level, hlevel, rfl, hb⟩
    exact ⟨_, find?_chain_level hdepth width hlevel, mentions_levelRecord_iff.2 hb⟩

/-- A level behind the first one is mentioned by the level in front of it only. -/
theorem mentions_chain_succ_iff {a : String} {level : Nat} (hlevel : level + 1 < depth) :
    (chain depth width).Mentions a (levelName (level + 1)) ↔ a = levelName level := by
  rw [mentions_chain_iff hdepth]
  constructor
  · rintro ⟨front, hfront, rfl, hsize | hnext⟩
    · exact absurd hsize (levelName_ne_size _)
    · rw [levelName_inj] at hnext ⊢
      rcases Nat.lt_or_eq_of_le (Nat.succ_le_of_lt hfront) with hlt | rfl
      · rw [Nat.mod_eq_of_lt hlt] at hnext
        omega
      · simp at hnext
  · rintro rfl
    exact ⟨level, by omega, rfl, .inr (by rw [Nat.mod_eq_of_lt hlevel])⟩

/-- The first level reaches every record. -/
theorem reaches_chain_iff {name : String} :
    (chain depth width).Reaches (levelName 0) name ↔
      name = "Size" ∨ ∃ level < depth, name = levelName level := by
  have hreach {level : Nat} (hlevel : level < depth) :
      (chain depth width).Reaches (levelName 0) (levelName level) := by
    induction level with
    | zero => exact .refl
    | succ level ih =>
        exact (ih (by omega)).tail ((mentions_chain_succ_iff hdepth width hlevel).2 rfl)
  constructor
  · intro h
    rcases Relation.ReflTransGen.cases_tail h with rfl | ⟨a, -, hmention⟩
    · exact .inr ⟨0, hdepth, rfl⟩
    · obtain ⟨level, -, -, hname⟩ := (mentions_chain_iff hdepth width).1 hmention
      exact hname.imp_right fun hname => ⟨_, Nat.mod_lt _ hdepth, hname⟩
  · rintro (rfl | ⟨level, hlevel, rfl⟩)
    · exact .single ((mentions_chain_iff hdepth width).2 ⟨0, hdepth, rfl, .inl rfl⟩)
    · exact hreach hlevel

end Way

end Catalog

end RecordSchema
