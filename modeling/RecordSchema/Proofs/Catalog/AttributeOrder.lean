import Mathlib.Data.List.Forall2
import Mathlib.Data.List.Nodup
import Mathlib.Data.List.Permutation
import RecordSchema.Proofs.Catalog.Reading

/-!
# The order of attributes

The attributes of a field are taken in one after the other, each into a place of its own, but for
those that name the node that holds the field: they compete for one place, and a second one is an
error.  Attributes with different keys can change places, since a pair of them succeeds in one order
just when it does in the other, with the same head.  Catalogs and records look their attributes up.
So documents that differ in the order of attributes only are read alike.
-/

namespace RecordSchema.CatalogDocument

open Markup (Element Event)

variable {p p' : Position} {ev ev' : Event} {events events' : List Event} {e e' : Element}

/-! ## What an attribute says -/

/-- What an attribute says about a field. -/
inductive Statement where
  | name (value : String)
  | type (value : String)
  | optional (up : Bool)
  | list (up : Bool)
  | omitEmpty (up : Bool)
  | exported (up : Bool)
  | node (kind : NodeKind) (name : String)
  /-- What an unknown attribute says, or a node whose flag is down. -/
  | nothing

/-- The flag that a text stands for. -/
def flagOf? (value : String) : Option Bool :=
  if value ∈ ["true", "yes", "1"] then some true
  else if value ∈ ["false", "no", "0"] then some false
  else none

def flaggedNode (kind : NodeKind) (up : Bool) : Statement := if up then .node kind "" else .nothing

/-- An attribute whose value is no flag, though it should be, says something wrong. -/
def statement? : String × String → Option Statement
  | ("name", value) => some (.name value)
  | ("type", value) => some (.type value)
  | ("optional", value) => (flagOf? value).map .optional
  | ("list", value) => (flagOf? value).map .list
  | ("omitempty", value) => (flagOf? value).map .omitEmpty
  | ("exported", value) => (flagOf? value).map .exported
  | ("element", value) => some (.node .element value)
  | ("attr", value) => some (.node .attr value)
  | ("chardata", value) => (flagOf? value).map (flaggedNode .charData)
  | ("ignored", value) => (flagOf? value).map (flaggedNode .ignored)
  | _ => some .nothing

namespace Statement

def isNode : Statement → Bool
  | node _ _ => true
  | _ => false

/-- The key of the attributes that say this, if there is only one. -/
def key? : Statement → Option String
  | name _ => some "name"
  | type _ => some "type"
  | optional _ => some "optional"
  | list _ => some "list"
  | omitEmpty _ => some "omitempty"
  | exported _ => some "exported"
  | node _ _ | nothing => none

end Statement

namespace FieldHead

variable {h h' : FieldHead} {item other : String × String} {s t : Statement}

def take (h : FieldHead) : Statement → FieldHead
  | .name value => { h with name := some value }
  | .type value => { h with typeName := some value }
  | .optional up => { h with optional := up }
  | .list up => { h with list := up }
  | .omitEmpty up => { h with omitEmpty := up }
  | .exported up => { h with exported := up }
  | .node kind name => { h with node := some (kind, name) }
  | .nothing => h

theorem flag_eq_ok_iff {key value : String} {up : Bool} :
    h.flag key value = .ok up ↔ flagOf? value = some up := by
  rw [flag, flagOf?]
  split_ifs <;> simp

theorem setNode_eq_ok_iff {key value name : String} {kind : NodeKind} :
    h.setNode key value kind name = .ok h' ↔ h.node = none ∧ h.take (.node kind name) = h' := by
  rw [setNode]
  cases hnode : h.node with
  | none => simp [take]
  | some node => simp

theorem setNodeIf_eq_ok_iff {key value : String} {kind : NodeKind} :
    h.setNodeIf key value kind = .ok h' ↔ ∃ s, (flagOf? value).map (flaggedNode kind) = some s ∧
      (s.isNode = true → h.node = none) ∧ h.take s = h' := by
  simp only [setNodeIf, bind_eq_ok_iff, flag_eq_ok_iff, Option.map_eq_some_iff]
  constructor
  · rintro ⟨up, hup, hset⟩
    refine ⟨_, ⟨up, hup, rfl⟩, ?_⟩
    cases up with
    | true => exact (setNode_eq_ok_iff.1 hset).imp_left fun hnode _ => hnode
    | false => exact ⟨nofun, Except.ok.inj hset⟩
  · rintro ⟨_, ⟨up, hup, rfl⟩, hnode, hh⟩
    refine ⟨up, hup, ?_⟩
    cases up with
    | true => exact setNode_eq_ok_iff.2 ⟨hnode rfl, hh⟩
    | false => exact congrArg Except.ok hh

/-- An attribute is taken in if it says something, and a node only if there is none yet. -/
theorem note_eq_ok_iff :
    h.note item = .ok h' ↔ ∃ s, statement? item = some s ∧ (s.isNode = true → h.node = none) ∧
      h.take s = h' := by
  have hflag {key value : String} (said : Bool → Statement)
      (hsaid : ∀ up, (said up).isNode = false) :
      (h.flag key value >>= fun up => .ok (h.take (said up))) = .ok h' ↔
        ∃ s, (flagOf? value).map said = some s ∧ (s.isNode = true → h.node = none) ∧
          h.take s = h' := by
    simp only [bind_eq_ok_iff, flag_eq_ok_iff, Option.map_eq_some_iff, Except.ok.injEq]
    constructor
    · rintro ⟨up, hup, hh⟩
      exact ⟨_, ⟨up, hup, rfl⟩, by simp [hsaid], hh⟩
    · rintro ⟨_, ⟨up, hup, rfl⟩, -, hh⟩
      exact ⟨up, hup, hh⟩
  unfold note
  split
  case h_1 | h_2 => simp [statement?, Statement.isNode, take]
  case h_3 => exact hflag .optional fun _ => rfl
  case h_4 => exact hflag .list fun _ => rfl
  case h_5 => exact hflag .omitEmpty fun _ => rfl
  case h_6 => exact hflag .exported fun _ => rfl
  case h_7 | h_8 => simp [statement?, Statement.isNode, setNode_eq_ok_iff]
  case h_9 | h_10 => exact setNodeIf_eq_ok_iff
  case h_11 hname htype hoptional hlist homit hexported helement hattr hchar hignored =>
    have hnothing : statement? item = some .nothing := by
      unfold statement?
      split
      case h_11 => rfl
      all_goals simp_all
    simp [hnothing, Statement.isNode, take]

/-! ## Two attributes -/

/-- Attributes that say the same kind of thing have one key, or they name nodes. -/
theorem key_eq_of_statement? (h : statement? item = some s) {key : String}
    (hkey : s.key? = some key) : item.1 = key := by
  unfold statement? at h
  split at h
  case h_1 | h_2 =>
      cases h
      cases hkey
      rfl
  case h_7 | h_8 | h_11 =>
      cases h
      cases hkey
  case h_3 | h_4 | h_5 | h_6 =>
      obtain ⟨up, -, rfl⟩ := Option.map_eq_some_iff.1 h
      cases hkey
      rfl
  case h_9 | h_10 =>
      obtain ⟨up, -, rfl⟩ := Option.map_eq_some_iff.1 h
      cases up <;> cases hkey

/-- Statements of different kinds go to different places. -/
theorem take_take (hkey : ∀ key, s.key? = some key → t.key? ≠ some key)
    (hnode : s.isNode = true → t.isNode = false) : (h.take s).take t = (h.take t).take s := by
  cases s <;> cases t <;> first | rfl | exact absurd rfl (hkey _ rfl) | cases hnode rfl

theorem isSome_node_take : (h.take s).node.isSome = (h.node.isSome || s.isNode) := by
  cases s <;> simp [take, Statement.isNode]

theorem node_take_eq_none_iff : (h.take s).node = none ↔ h.node = none ∧ s.isNode = false := by
  rw [← Option.not_isSome_iff_eq_none, isSome_node_take]
  simp

/-- Attributes with different keys can be taken in the other way round. -/
theorem note_note_of_note_note (hkey : item.1 ≠ other.1)
    (hnotes : h.note item >>= (·.note other) = .ok h') :
    h.note other >>= (·.note item) = .ok h' := by
  obtain ⟨h₁, hfirst, hsecond⟩ := bind_eq_ok_iff.1 hnotes
  obtain ⟨s, hs, hsnode, rfl⟩ := note_eq_ok_iff.1 hfirst
  obtain ⟨t, ht, htnode, rfl⟩ := note_eq_ok_iff.1 hsecond
  -- if one of them names a node, the other one does not
  have hapart (hnode : t.isNode = true) : h.node = none ∧ s.isNode = false :=
    node_take_eq_none_iff.1 (htnode hnode)
  refine bind_eq_ok_iff.2 ⟨h.take t, note_eq_ok_iff.2 ⟨t, ht, fun hnode => (hapart hnode).1, rfl⟩,
    note_eq_ok_iff.2 ⟨s, hs, fun hnode => node_take_eq_none_iff.2 ⟨hsnode hnode, ?_⟩, ?_⟩⟩
  · by_contra htrue
    rw [(hapart (by simpa using htrue)).2] at hnode
    cases hnode
  · refine take_take (fun key htkey hskey => hkey ?_) fun hnode => (hapart hnode).2
    rw [key_eq_of_statement? hs hskey, key_eq_of_statement? ht htkey]

/-- Attributes with different keys can be taken in in any order. -/
theorem foldlM_note_of_perm {items items' : List (String × String)} (hperm : items.Perm items')
    (hkeys : (items.map Prod.fst).Nodup) (hnotes : items.foldlM note h = .ok h') :
    items'.foldlM note h = .ok h' := by
  induction hperm generalizing h with
  | nil => exact hnotes
  | cons item _ ih =>
      rw [List.foldlM_cons] at hnotes ⊢
      obtain ⟨h₁, hnote, hrest⟩ := bind_eq_ok_iff.1 hnotes
      exact bind_eq_ok_iff.2 ⟨h₁, hnote, ih (List.nodup_cons.1 hkeys).2 hrest⟩
  | swap other item rest =>
      have hne : item.1 ≠ other.1 := List.ne_of_not_mem_cons (List.nodup_cons.1 hkeys).1
      simp only [List.foldlM_cons] at hnotes ⊢
      rw [← bind_assoc] at hnotes ⊢
      obtain ⟨h₁, hpair, hrest⟩ := bind_eq_ok_iff.1 hnotes
      exact bind_eq_ok_iff.2 ⟨h₁, note_note_of_note_note hne hpair, hrest⟩
  | trans hfirst _ ih₁ ih₂ => exact ih₂ ((hfirst.map _).nodup_iff.1 hkeys) (ih₁ hkeys hnotes)

/-! ## Nodes in force -/

/-- The attribute names the node that holds the field: always by a name, or by a flag that is up. -/
def namesNode (item : String × String) : Bool :=
  item.1 ∈ ["element", "attr"] ||
    (item.1 ∈ ["chardata", "ignored"] && item.2 ∈ ["true", "yes", "1"])

theorem isNode_of_statement? (hs : statement? item = some s) : s.isNode = namesNode item := by
  have hflagged {value : String} {kind : NodeKind}
      (h : (flagOf? value).map (flaggedNode kind) = some s) :
      s.isNode = decide (value ∈ ["true", "yes", "1"]) := by
    obtain ⟨up, hup, rfl⟩ := Option.map_eq_some_iff.1 h
    rw [flagOf?] at hup
    split_ifs at hup with hyes <;> cases hup
    · exact (decide_eq_true hyes).symm
    · exact (decide_eq_false hyes).symm
  unfold statement? at hs
  split at hs
  case h_3 | h_4 | h_5 | h_6 =>
    obtain ⟨up, -, rfl⟩ := Option.map_eq_some_iff.1 hs
    rfl
  case h_9 | h_10 => exact hflagged hs
  case h_11 hname htype hoptional hlist homit hexported helement hattr hchar hignored =>
    cases hs
    have hother (key : String) (h : ∀ value, item = (key, value) → False) : item.1 ≠ key :=
      fun heq => h item.2 (Prod.ext heq rfl)
    simp [namesNode, Statement.isNode, hother _ helement, hother _ hattr, hother _ hchar,
      hother _ hignored]
  all_goals
    cases hs
    rfl

/-- A head that is read from attributes has at most one node. -/
theorem countP_namesNode_le {items : List (String × String)}
    (hnotes : items.foldlM note h = .ok h') :
    h.node.isSome.toNat + items.countP namesNode ≤ 1 := by
  induction items generalizing h with
  | nil => simpa using Bool.toNat_le _
  | cons item rest ih =>
      rw [List.foldlM_cons] at hnotes
      obtain ⟨h₁, hnote, hrest⟩ := bind_eq_ok_iff.1 hnotes
      obtain ⟨s, hs, hnode, rfl⟩ := note_eq_ok_iff.1 hnote
      have hrest := ih hrest
      rw [List.countP_cons, ← isNode_of_statement? hs]
      cases hisNode : s.isNode with
      | true =>
          rw [isSome_node_take, hisNode, Bool.or_true] at hrest
          rw [hnode hisNode]
          simp only [Bool.toNat_true, Option.isSome_none, Bool.toNat_false, if_true] at hrest ⊢
          omega
      | false =>
          rw [isSome_node_take, hisNode, Bool.or_false] at hrest
          simpa using hrest

theorem ofElement_ne_ok {embedded : Bool} (hnodes : 2 ≤ e.attributes.countP namesNode) :
    ofElement embedded e ≠ .ok h := by
  intro hhead
  have := countP_namesNode_le hhead
  omega

end FieldHead

/-! ## Elements -/

/-- The elements differ in the order of their attributes only. -/
structure Reorders (e e' : Element) : Prop where
  name : e.name = e'.name
  attributes : e.attributes.Perm e'.attributes
  keys : (e.attributes.map Prod.fst).Nodup

theorem lookup_eq_of_perm {items items' : List (String × String)} (hperm : items.Perm items')
    (hkeys : (items.map Prod.fst).Nodup) (key : String) : items.lookup key = items'.lookup key := by
  induction hperm with
  | nil => rfl
  | cons item _ ih => rw [List.lookup_cons, List.lookup_cons, ih (List.nodup_cons.1 hkeys).2]
  | swap other item rest =>
      have hne : item.1 ≠ other.1 := List.ne_of_not_mem_cons (List.nodup_cons.1 hkeys).1
      obtain ⟨k, value⟩ := item
      obtain ⟨k', value'⟩ := other
      by_cases hitem : key = k
      · rw [hitem, List.lookup_cons_self, List.lookup_cons, beq_eq_false_iff_ne.2 hne,
          List.lookup_cons_self]
      · simp only [List.lookup_cons, beq_eq_false_iff_ne.2 hitem]
  | trans hfirst _ ih₁ ih₂ => rw [ih₁ hkeys, ih₂ ((hfirst.map _).nodup_iff.1 hkeys)]

namespace Reorders

theorem symm (h : Reorders e e') : Reorders e' e :=
  ⟨h.name.symm, h.attributes.symm, (h.attributes.map _).nodup_iff.1 h.keys⟩

theorem catalogHead_eq (h : Reorders e e') : catalogHead e = catalogHead e' := by
  rw [catalogHead, catalogHead, lookup_eq_of_perm h.attributes h.keys]

theorem recordHead_eq (h : Reorders e e') (package : String) :
    recordHead package e = recordHead package e' := by
  have hlookup := lookup_eq_of_perm h.attributes h.keys
  rw [recordHead, recordHead, hlookup "name", hlookup "package", hlookup "element"]

theorem ofElement_eq_ok (h : Reorders e e') {embedded : Bool} {head : FieldHead}
    (hhead : FieldHead.ofElement embedded e = .ok head) :
    FieldHead.ofElement embedded e' = .ok head :=
  FieldHead.foldlM_note_of_perm h.attributes h.keys hhead

theorem emptyField_eq_ok (h : Reorders e e') {embedded : Bool} {f : FieldDecl}
    (hfield : emptyField embedded e = .ok f) : emptyField embedded e' = .ok f := by
  obtain ⟨head, hhead, hfinish⟩ := bind_eq_ok_iff.1 hfield
  exact bind_eq_ok_iff.2 ⟨head, h.ofElement_eq_ok hhead, hfinish⟩

end Reorders

/-! ## Documents -/

/-- The events differ in the order of the attributes of an element only. -/
inductive SameUpToOrder : Event → Event → Prop
  | same {ev : Event} : SameUpToOrder ev ev
  | opening {e e' : Element} (reorders : Reorders e e') : SameUpToOrder (.opening e) (.opening e')
  | selfClosing {e e' : Element} (reorders : Reorders e e') :
      SameUpToOrder (.selfClosing e) (.selfClosing e')

theorem SameUpToOrder.symm (h : SameUpToOrder ev ev') : SameUpToOrder ev' ev := by
  cases h with
  | same => exact .same
  | opening reorders => exact .opening reorders.symm
  | selfClosing reorders => exact .selfClosing reorders.symm

/-- A start tag takes the reader where it does with its attributes in another order. -/
theorem steps_opening_of_reorders (h : Reorders e e') (hstep : Steps p (.opening e) p') :
    Steps p (.opening e') p' := by
  cases hstep with
  | skip passed =>
      cases p with
      | choice => exact .skip rfl
      | _ => cases passed
  | catalog tag =>
      rw [h.catalogHead_eq]
      exact .catalog (h.name ▸ tag)
  | record tag head_eq => exact .record (h.name ▸ tag) (h.recordHead_eq _ ▸ head_eq)
  | field tag head_eq => exact .field (h.name ▸ tag) (h.ofElement_eq_ok head_eq)
  | inline tag => exact .inline (h.name ▸ tag)
  | choice tag => exact .choice (h.name ▸ tag)

theorem steps_selfClosing_of_reorders (h : Reorders e e') (hstep : Steps p (.selfClosing e) p') :
    Steps p (.selfClosing e') p' := by
  cases hstep with
  | skip passed =>
      cases p with
      | choice => exact .skip rfl
      | _ => cases passed
  | emptyCatalog tag =>
      rw [h.catalogHead_eq]
      exact .emptyCatalog (h.name ▸ tag)
  | emptyRecord tag head_eq added =>
      exact .emptyRecord (h.name ▸ tag) (h.recordHead_eq _ ▸ head_eq) added
  | emptyField tag decl => exact .emptyField (h.name ▸ tag) (h.emptyField_eq_ok decl)
  | emptyInline tag => exact .emptyInline (h.name ▸ tag)
  | emptyChoice tag => exact .emptyChoice (h.name ▸ tag)

theorem step_of_sameUpToOrder (h : SameUpToOrder ev ev') (hstep : p.step ev = .ok p') :
    p.step ev' = .ok p' := by
  rw [step_eq_ok_iff] at hstep ⊢
  cases h with
  | same => exact hstep
  | opening reorders => exact steps_opening_of_reorders reorders hstep
  | selfClosing reorders => exact steps_selfClosing_of_reorders reorders hstep

/-- A run goes the same way with attributes in another order. -/
theorem runs_of_sameUpToOrder (h : List.Forall₂ SameUpToOrder events events')
    (hrun : Runs p events p') : Runs p events' p' := by
  induction h generalizing p with
  | nil => exact hrun
  | cons hev _ ih =>
      obtain ⟨p₁, hstep, hrest⟩ := runs_cons_iff.1 hrun
      exact runs_cons_iff.2 ⟨p₁, step_of_sameUpToOrder hev hstep, ih hrest⟩

theorem parse_eq_ok_of_sameUpToOrder {d d' : String} {c : Catalog}
    (h : List.Forall₂ SameUpToOrder (Markup.events d) (Markup.events d'))
    (hparse : Catalog.parse d = .ok c) : Catalog.parse d' = .ok c :=
  ofEvents_eq_ok_iff.2 (runs_of_sameUpToOrder h (ofEvents_eq_ok_iff.1 hparse))

theorem fieldTag_mem (embedded : Bool) : fieldTag embedded ∈ ["field", "embed"] := by
  cases embedded <;> decide

/-- A field that is held by several nodes stops the reader, but for one inside a choice. -/
theorem exists_choice_of_two_nodes {embedded : Bool} (h : Steps p ev p')
    (hev : ev = .opening e ∨ ev = .selfClosing e) (htag : e.name = fieldTag embedded)
    (hnodes : 2 ≤ e.attributes.countP FieldHead.namesNode) :
    ∃ owner decls field text, p = .choice owner decls field text := by
  have hname := fieldTag_mem embedded
  rw [← htag] at hname
  cases h with
  | skip passed =>
      cases p with
      | choice owner decls field text => exact ⟨owner, decls, field, text, rfl⟩
      | _ => rcases hev with rfl | rfl <;> cases passed
  | field tag head_eq =>
      obtain rfl : _ = e := by simpa using hev
      exact absurd head_eq (FieldHead.ofElement_ne_ok hnodes)
  | emptyField tag decl =>
      obtain rfl : _ = e := by simpa using hev
      obtain ⟨head, hhead, -⟩ := bind_eq_ok_iff.1 decl
      exact absurd hhead (FieldHead.ofElement_ne_ok hnodes)
  | catalog tag | emptyCatalog tag | record tag | emptyRecord tag | inline tag | emptyInline tag
  | choice tag | emptyChoice tag =>
      obtain rfl : _ = e := by simpa using hev
      rw [tag] at hname
      exact absurd hname (by decide)
  | closeFields | closeField | closeChoice | text => simp at hev

/-- Documents that differ in the order of attributes are read alike.  A field that is held by
several nodes is read in neither order. -/
theorem parse_iff_of_sameUpToOrder {d d' : String}
    (h : List.Forall₂ SameUpToOrder (Markup.events d) (Markup.events d')) :
    (∀ c, Catalog.parse d = .ok c ↔ Catalog.parse d' = .ok c) ∧
      ∀ before ev after e embedded, Markup.events d = before ++ ev :: after →
        ev = .opening e ∨ ev = .selfClosing e → e.name = fieldTag embedded →
        2 ≤ e.attributes.countP FieldHead.namesNode →
        (∀ owner decls field text, ¬Runs (.top none) before (.choice owner decls field text)) →
        ∀ c, Catalog.parse d ≠ .ok c ∧ Catalog.parse d' ≠ .ok c := by
  have hflip : List.Forall₂ SameUpToOrder (Markup.events d') (Markup.events d) :=
    (h.imp fun _ _ => SameUpToOrder.symm).flip
  have hiff (c : Catalog) : Catalog.parse d = .ok c ↔ Catalog.parse d' = .ok c :=
    ⟨parse_eq_ok_of_sameUpToOrder h, parse_eq_ok_of_sameUpToOrder hflip⟩
  refine ⟨hiff, fun before ev after e embedded hevents hev htag hnodes hplace c => ?_⟩
  have hd : Catalog.parse d ≠ .ok c := by
    intro hparse
    have hrun := ofEvents_eq_ok_iff.1 hparse
    rw [hevents] at hrun
    obtain ⟨p, hbefore, hrest⟩ := runs_append_iff.1 hrun
    obtain ⟨p', hstep, -⟩ := runs_cons_iff.1 hrest
    obtain ⟨owner, decls, field, text, rfl⟩ :=
      exists_choice_of_two_nodes (steps_of_step hstep) hev htag hnodes
    exact hplace owner decls field text hbefore
  exact ⟨hd, fun hparse => hd ((hiff c).2 hparse)⟩

def fieldEvents (attributes : List (String × String)) : List Event :=
  [.opening ⟨"catalog", []⟩, .opening ⟨"record", [("name", "Link")]⟩,
   .selfClosing ⟨"field", attributes⟩, .closing "record", .closing "catalog"]

theorem forall₂_fieldEvents {items items' : List (String × String)} (hperm : items.Perm items')
    (hkeys : (items.map Prod.fst).Nodup) :
    List.Forall₂ SameUpToOrder (fieldEvents items) (fieldEvents items') :=
  .cons .same (.cons .same (.cons (.selfClosing ⟨rfl, hperm, hkeys⟩)
    (.cons .same (.cons .same .nil))))

/-- A field that is an attribute. -/
def plainDocument : String :=
  "<catalog><record name='Link'><field name='Mtu' type='uint' attr='mtu'/></record></catalog>"

def plainDocument' : String :=
  "<catalog><record name='Link'><field attr='mtu' name='Mtu' type='uint'/></record></catalog>"

theorem events_plainDocument : Markup.events plainDocument =
    fieldEvents [("name", "Mtu"), ("type", "uint"), ("attr", "mtu")] := by
  cbv

theorem events_plainDocument' : Markup.events plainDocument' =
    fieldEvents [("attr", "mtu"), ("name", "Mtu"), ("type", "uint")] := by
  cbv

/-- A field that is an attribute and ignored. -/
def crowdedDocument : String :=
  "<catalog><record name='Link'><field name='Mtu' attr='mtu' ignored='yes'/></record></catalog>"

def crowdedDocument' : String :=
  "<catalog><record name='Link'><field ignored='yes' name='Mtu' attr='mtu'/></record></catalog>"

theorem events_crowdedDocument : Markup.events crowdedDocument =
    fieldEvents [("name", "Mtu"), ("attr", "mtu"), ("ignored", "yes")] := by
  cbv

theorem events_crowdedDocument' : Markup.events crowdedDocument' =
    fieldEvents [("ignored", "yes"), ("name", "Mtu"), ("attr", "mtu")] := by
  cbv

theorem parse_iff_of_sameUpToOrder_field :
    (∃ c, Catalog.parse plainDocument = .ok c ∧ Catalog.parse plainDocument' = .ok c) ∧
      ∀ c, Catalog.parse crowdedDocument ≠ .ok c ∧ Catalog.parse crowdedDocument' ≠ .ok c := by
  constructor
  · have hsame : List.Forall₂ SameUpToOrder (Markup.events plainDocument)
        (Markup.events plainDocument') := by
      rw [events_plainDocument, events_plainDocument']
      exact forall₂_fieldEvents (by decide) (by decide)
    obtain ⟨c, hparse⟩ : ∃ c, Catalog.parse plainDocument = .ok c := by
      rw [Catalog.parse, events_plainDocument]
      exact ⟨_, rfl⟩
    exact ⟨c, hparse, ((parse_iff_of_sameUpToOrder hsame).1 c).1 hparse⟩
  · have hsame : List.Forall₂ SameUpToOrder (Markup.events crowdedDocument)
        (Markup.events crowdedDocument') := by
      rw [events_crowdedDocument, events_crowdedDocument']
      exact forall₂_fieldEvents (by decide) (by decide)
    refine (parse_iff_of_sameUpToOrder hsame).2 [_, _] _ _ ⟨"field", _⟩ false
      events_crowdedDocument (.inr rfl) rfl (by decide) ?_
    intro owner decls field text hchoice
    cases hchoice

end RecordSchema.CatalogDocument
