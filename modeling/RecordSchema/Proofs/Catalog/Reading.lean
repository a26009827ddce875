import RecordSchema.Catalog.Document
import RecordSchema.Proofs.Markup.Nesting

/-!
# Reading events

What one event can do to the reader of a catalog, with nothing left out: `Steps` has a constructor
for each way to go on.  A run goes through the events of a document step by step.
-/

namespace RecordSchema.CatalogDocument

open Markup (Element Event)

variable {p p' : Position} {ev : Event} {owner : Owner} {before : List FieldDecl}
  {field : OpenField} {text : String}

theorem bind_eq_ok_iff {α β : Type} {x : Except ParseError α} {f : α → Except ParseError β}
    {b : β} : x >>= f = .ok b ↔ ∃ a, x = .ok a ∧ f a = .ok b := by
  cases x with
  | ok a =>
      constructor
      · exact fun h => ⟨a, rfl, h⟩
      · rintro ⟨_, hx, h⟩
        cases hx
        exact h
  | error e =>
      constructor
      · intro h
        cases h
      · rintro ⟨_, h, -⟩
        cases h

/-! ## Heads of fields -/

/-- The name of a field element. -/
def fieldTag (embedded : Bool) : String := if embedded then "embed" else "field"

namespace FieldHead

variable {h h' : FieldHead}

theorem elementName_eq (h : FieldHead) : h.elementName = fieldTag h.embedded := rfl

theorem embedded_setNode {key value name : String} {node : NodeKind}
    (hset : h.setNode key value node name = .ok h') : h'.embedded = h.embedded := by
  rw [setNode] at hset
  split at hset <;> cases hset
  rfl

theorem embedded_setNodeIf {key value : String} {node : NodeKind}
    (hset : h.setNodeIf key value node = .ok h') : h'.embedded = h.embedded := by
  obtain ⟨up, -, hset⟩ := bind_eq_ok_iff.1 hset
  split at hset
  · exact embedded_setNode hset
  · cases hset
    rfl

/-- Attributes do not say whether a field is embedded. -/
theorem embedded_note {item : String × String} (hnote : h.note item = .ok h') :
    h'.embedded = h.embedded := by
  unfold note at hnote
  split at hnote
  case h_3 | h_4 | h_5 | h_6 =>
      obtain ⟨up, -, heq⟩ := bind_eq_ok_iff.1 hnote
      cases heq
      rfl
  case h_7 | h_8 => exact embedded_setNode hnote
  case h_9 | h_10 => exact embedded_setNodeIf hnote
  all_goals
    cases hnote
    rfl

theorem embedded_foldlM {items : List (String × String)}
    (hnotes : items.foldlM note h = .ok h') : h'.embedded = h.embedded := by
  induction items generalizing h with
  | nil =>
      cases hnotes
      rfl
  | cons item rest ih =>
      rw [List.foldlM_cons] at hnotes
      obtain ⟨h₁, hnote, hrest⟩ := bind_eq_ok_iff.1 hnotes
      rw [ih hrest, embedded_note hnote]

/-- A field's head has the name of its element. -/
theorem elementName_of_ofElement {embedded : Bool} {e : Element}
    (hhead : ofElement embedded e = .ok h) : h.elementName = fieldTag embedded := by
  rw [elementName_eq, embedded_foldlM hhead]

end FieldHead

/-! ## Fields -/

namespace FieldHead

variable {h : FieldHead} {ty : TypeExpr} {f : FieldDecl}

/-- What stands inside the wrappers of a field's type: what the attributes name or the record in
place, but not both. -/
inductive HasBase (h : FieldHead) : Option RecordDecl → TypeExpr → Prop
  | scalar {name : String} {kind : ScalarKind} (typed : h.typeName = some name)
      (scalar : ScalarKind.ofName? name = some kind) : HasBase h none (.scalar kind)
  | named {name : String} (typed : h.typeName = some name)
      (not_scalar : ScalarKind.ofName? name = none) : HasBase h none (.named name)
  | inline {record : RecordDecl} (untyped : h.typeName = none) :
      HasBase h (some record) (.inline record)

theorem baseType_eq_ok_iff {inline : Option RecordDecl} :
    h.baseType inline = .ok ty ↔ h.HasBase inline ty := by
  constructor
  · intro hty
    unfold baseType at hty
    split at hty
    · rename_i name typed
      split at hty
      · rename_i kind scalar
        cases hty
        exact .scalar typed scalar
      · rename_i not_scalar
        cases hty
        exact .named typed not_scalar
    · rename_i untyped
      cases hty
      exact .inline untyped
    · cases hty
    · cases hty
  · rintro (⟨typed, scalar⟩ | ⟨typed, not_scalar⟩ | ⟨untyped⟩)
    · simp only [baseType, typed, scalar]
    · simp only [baseType, typed, not_scalar]
    · simp only [baseType, untyped]

/-- The name of a field of a type: only an embedded field need not have one of its own. -/
inductive HasName (h : FieldHead) (ty : TypeExpr) : String → Prop
  | own {name : String} (embedded : h.embedded = false) (name_eq : h.name = some name)
      (ne : name ≠ "") : HasName h ty name
  | embedded (embedded : h.embedded = true) : HasName h ty (h.name.getD (FieldDecl.embed ty).name)

theorem named_eq_ok_iff :
    h.named ty = .ok f ↔ ∃ name, h.HasName ty name ∧ f = { name, ty, embedded := h.embedded } := by
  unfold named
  cases hembedded : h.embedded with
  | true =>
      constructor
      · intro hf
        cases hf
        exact ⟨_, .embedded hembedded, rfl⟩
      · rintro ⟨name, ⟨own, -, -⟩ | -, rfl⟩
        · cases hembedded.symm.trans own
        · rfl
  | false =>
      constructor
      · intro hf
        split at hf
        · cases ‹false = true›
        · split at hf
          · rename_i name hname
            obtain ⟨name_eq, ne⟩ := Option.filter_eq_some_iff.1 hname
            cases hf
            exact ⟨name, .own hembedded name_eq (by simpa using ne), rfl⟩
          · cases hf
      · rintro ⟨name, ⟨-, name_eq, ne⟩ | embedded, rfl⟩
        · have hname : h.name.filter (!·.isEmpty) = some name :=
            Option.filter_eq_some_iff.2 ⟨name_eq, by simpa using ne⟩
          simp only [hname]
          rfl
        · cases hembedded.symm.trans embedded

end FieldHead

namespace OpenField

variable {f : FieldDecl} {record : RecordDecl}

/-- A field element with what stands between its tags makes one field, if it gives the field a type
and a name. -/
theorem finish_eq_ok_iff :
    field.finish = .ok f ↔
      ∃ base name, field.head.HasBase field.inline base ∧
        field.head.HasName (field.head.wrapType base) name ∧
        f =
          { name
            ty := field.head.wrapType base
            tag := field.head.node.map fun (node, name) =>
              { name, node, omitEmpty := field.head.omitEmpty }
            exported := field.head.exported
            embedded := field.head.embedded
            validValues := field.choices } := by
  constructor
  · intro hfinish
    obtain ⟨base, hbase, hrest⟩ := bind_eq_ok_iff.1 hfinish
    obtain ⟨_, hnamed, hf⟩ := bind_eq_ok_iff.1 hrest
    obtain ⟨name, hname, rfl⟩ := FieldHead.named_eq_ok_iff.1 hnamed
    cases hf
    exact ⟨base, name, FieldHead.baseType_eq_ok_iff.1 hbase, hname, rfl⟩
  · rintro ⟨base, name, hbase, hname, rfl⟩
    exact bind_eq_ok_iff.2 ⟨base, FieldHead.baseType_eq_ok_iff.2 hbase,
      bind_eq_ok_iff.2 ⟨_, FieldHead.named_eq_ok_iff.2 ⟨name, hname, rfl⟩, rfl⟩⟩

/-- A record in place is the type of its field, in a list and as an option where the flags of the
element say so, and then the attributes name no type. -/
theorem ty_of_finish_inline (hfinish : field.finish = .ok f)
    (hinline : field.inline = some record) :
    field.head.typeName = none ∧
      f.ty =
        match field.head.optional, field.head.list with
        | false, false => .inline record
        | false, true => .list (.inline record)
        | true, false => .optional (.inline record)
        | true, true => .optional (.list (.inline record)) := by
  obtain ⟨base, name, hbase, -, rfl⟩ := finish_eq_ok_iff.1 hfinish
  rw [hinline] at hbase
  cases hbase with
  | inline untyped =>
      refine ⟨untyped, ?_⟩
      change field.head.wrapType (.inline record) = _
      rw [FieldHead.wrapType]
      cases field.head.optional <;> cases field.head.list <;> rfl

end OpenField

/-! ## Steps -/

/-- Whether an event means nothing at a position. -/
def Position.passesOver : Position → Event → Bool
  | _, .reference _ | _, .cdata _ | _, .comment _ | _, .instruction _ | _, .doctype _ => true
  | choice .., .text _ => false
  | _, .text _ => true
  | choice .., .opening _ | choice .., .selfClosing _ => true
  | top _, .closing _ => true
  | _, _ => false

/-- One event takes the reader from one position to the next. -/
inductive Steps : Position → Event → Position → Prop
  | skip {p : Position} {ev : Event} (passed : p.passesOver ev = true) : Steps p ev p
  | catalog {catalog : Option Catalog} {e : Element} (tag : e.name = "catalog") :
      Steps (.top catalog) (.opening e) (.top (catalogHead e))
  | emptyCatalog {catalog : Option Catalog} {e : Element} (tag : e.name = "catalog") :
      Steps (.top catalog) (.selfClosing e) (.top (catalogHead e))
  | record {c : Catalog} {e : Element} {head : RecordDecl} (tag : e.name = "record")
      (head_eq : recordHead c.package e = .ok head) :
      Steps (.top c) (.opening e) (.fields (.record c head) [])
  | emptyRecord {c c' : Catalog} {e : Element} {head : RecordDecl} (tag : e.name = "record")
      (head_eq : recordHead c.package e = .ok head) (added : addRecord c head = .ok c') :
      Steps (.top c) (.selfClosing e) (.top c')
  | closeFields {owner : Owner} {before : List FieldDecl} {name : String} {p : Position}
      (closed : closeFields before owner = .ok p) : Steps (.fields owner before) (.closing name) p
  | field {owner : Owner} {before : List FieldDecl} {e : Element} {embedded : Bool}
      {head : FieldHead} (tag : e.name = fieldTag embedded)
      (head_eq : FieldHead.ofElement embedded e = .ok head) :
      Steps (.fields owner before) (.opening e) (.field owner before { head })
  | emptyField {owner : Owner} {before : List FieldDecl} {e : Element} {embedded : Bool}
      {f : FieldDecl} (tag : e.name = fieldTag embedded) (decl : emptyField embedded e = .ok f) :
      Steps (.fields owner before) (.selfClosing e) (.fields owner (before ++ [f]))
  | closeField {owner : Owner} {before : List FieldDecl} {field : OpenField} {name : String}
      {f : FieldDecl} (decl : field.finish = .ok f) :
      Steps (.field owner before field) (.closing name) (.fields owner (before ++ [f]))
  | inline {owner : Owner} {before : List FieldDecl} {field : OpenField} {e : Element}
      (tag : e.name = "record") :
      Steps (.field owner before field) (.opening e) (.fields (.inline owner before field) [])
  | emptyInline {owner : Owner} {before : List FieldDecl} {field : OpenField} {e : Element}
      (tag : e.name = "record") :
      Steps (.field owner before field) (.selfClosing e)
        (.field owner before { field with inline := some {} })
  | choice {owner : Owner} {before : List FieldDecl} {field : OpenField} {e : Element}
      (tag : e.name = "choice") :
      Steps (.field owner before field) (.opening e) (.choice owner before field "")
  | emptyChoice {owner : Owner} {before : List FieldDecl} {field : OpenField} {e : Element}
      (tag : e.name = "choice") :
      Steps (.field owner before field) (.selfClosing e) (.field owner before field)
  | closeChoice {owner : Owner} {before : List FieldDecl} {field : OpenField}
      {text name : String} :
      Steps (.choice owner before field text) (.closing name)
        (.field owner before { field with choices := field.choices ++ [text] })
  | text {owner : Owner} {before : List FieldDecl} {field : OpenField} {text content : String} :
      Steps (.choice owner before field text) (.text content)
        (.choice owner before field (text ++ Text.trim content))

theorem steps_of_stepTop {catalog : Option Catalog} (h : stepTop catalog ev = .ok p) :
    Steps (.top catalog) ev p := by
  cases ev with
  | opening e =>
      simp only [stepTop] at h
      split at h
      · rename_i tag
        cases h
        exact .catalog tag
      · rename_i tag
        cases catalog with
        | none => cases h
        | some c =>
            obtain ⟨head, head_eq, hp⟩ := bind_eq_ok_iff.1 h
            cases hp
            exact .record tag head_eq
      · cases h
  | selfClosing e =>
      simp only [stepTop] at h
      split at h
      · rename_i tag
        cases h
        exact .emptyCatalog tag
      · rename_i tag
        cases catalog with
        | none => cases h
        | some c =>
            obtain ⟨head, head_eq, h⟩ := bind_eq_ok_iff.1 h
            obtain ⟨c', added, hp⟩ := bind_eq_ok_iff.1 h
            cases hp
            exact .emptyRecord tag head_eq added
      · cases h
  | fault => cases h
  | _ =>
      cases h
      exact .skip rfl

theorem steps_of_stepFields (h : stepFields owner before ev = .ok p) :
    Steps (.fields owner before) ev p := by
  cases ev with
  | opening e =>
      simp only [stepFields] at h
      split at h
      · rename_i tag
        obtain ⟨head, head_eq, hp⟩ := bind_eq_ok_iff.1 h
        cases hp
        exact .field (show e.name = fieldTag false from tag) head_eq
      · rename_i tag
        obtain ⟨head, head_eq, hp⟩ := bind_eq_ok_iff.1 h
        cases hp
        exact .field (show e.name = fieldTag true from tag) head_eq
      · cases h
  | selfClosing e =>
      simp only [stepFields] at h
      split at h
      · rename_i tag
        obtain ⟨f, decl, hp⟩ := bind_eq_ok_iff.1 h
        cases hp
        exact .emptyField (show e.name = fieldTag false from tag) decl
      · rename_i tag
        obtain ⟨f, decl, hp⟩ := bind_eq_ok_iff.1 h
        cases hp
        exact .emptyField (show e.name = fieldTag true from tag) decl
      · cases h
  | closing name => exact .closeFields h
  | fault => cases h
  | _ =>
      cases h
      exact .skip rfl

theorem steps_of_stepField (h : stepField owner before field ev = .ok p) :
    Steps (.field owner before field) ev p := by
  cases ev with
  | opening e =>
      simp only [stepField] at h
      split at h
      · rename_i tag
        cases h
        exact .inline tag
      · rename_i tag
        cases h
        exact .choice tag
      · cases h
  | selfClosing e =>
      simp only [stepField] at h
      split at h
      · rename_i tag
        cases h
        exact .emptyInline tag
      · rename_i tag
        cases h
        exact .emptyChoice tag
      · cases h
  | closing name =>
      obtain ⟨f, decl, hp⟩ := bind_eq_ok_iff.1 h
      cases hp
      exact .closeField decl
  | fault => cases h
  | _ =>
      cases h
      exact .skip rfl

theorem steps_of_stepChoice (h : stepChoice owner before field text ev = .ok p) :
    Steps (.choice owner before field text) ev p := by
  cases ev with
  | closing name =>
      cases h
      exact .closeChoice
  | text content =>
      cases h
      exact .text
  | fault => cases h
  | _ =>
      cases h
      exact .skip rfl

theorem steps_of_step (h : p.step ev = .ok p') : Steps p ev p' := by
  cases p with
  | top catalog => exact steps_of_stepTop h
  | fields owner before => exact steps_of_stepFields h
  | field owner before field => exact steps_of_stepField h
  | choice owner before field text => exact steps_of_stepChoice h

theorem step_of_steps (h : Steps p ev p') : p.step ev = .ok p' := by
  cases h with
  | skip passed => cases p <;> cases ev <;> first | rfl | cases passed
  | catalog tag | emptyCatalog tag =>
      simp only [Position.step, stepTop, tag]
      rfl
  | record tag head_eq =>
      simp only [Position.step, stepTop, tag]
      exact bind_eq_ok_iff.2 ⟨_, head_eq, rfl⟩
  | emptyRecord tag head_eq added =>
      simp only [Position.step, stepTop, tag]
      exact bind_eq_ok_iff.2 ⟨_, head_eq, bind_eq_ok_iff.2 ⟨_, added, rfl⟩⟩
  | closeFields closed => exact closed
  | @field _ _ _ embedded _ tag head_eq =>
      cases embedded <;> simp only [Position.step, stepFields, tag, fieldTag] <;>
        exact bind_eq_ok_iff.2 ⟨_, head_eq, rfl⟩
  | @emptyField _ _ _ embedded _ tag decl =>
      cases embedded <;> simp only [Position.step, stepFields, tag, fieldTag] <;>
        exact bind_eq_ok_iff.2 ⟨_, decl, rfl⟩
  | closeField decl => exact bind_eq_ok_iff.2 ⟨_, decl, rfl⟩
  | inline tag | emptyInline tag | choice tag | emptyChoice tag =>
      simp only [Position.step, stepField, tag]
      rfl
  | closeChoice | text => rfl

/-- The constructors say all there is about a step, and nothing else. -/
theorem step_eq_ok_iff : p.step ev = .ok p' ↔ Steps p ev p' := ⟨steps_of_step, step_of_steps⟩

/-! ## Runs -/

/-- Some events take the reader from one position to another. -/
def Runs (p : Position) (events : List Event) (p' : Position) : Prop :=
  events.foldlM Position.step p = .ok p'

theorem runs_nil_iff : Runs p [] p' ↔ p = p' := Except.ok.injEq p p' ▸ Iff.rfl

theorem runs_cons_iff {rest : List Event} :
    Runs p (ev :: rest) p' ↔ ∃ p₁, p.step ev = .ok p₁ ∧ Runs p₁ rest p' := by
  rw [Runs, List.foldlM_cons]
  exact bind_eq_ok_iff

theorem runs_append_iff {events rest : List Event} :
    Runs p (events ++ rest) p' ↔ ∃ p₁, Runs p events p₁ ∧ Runs p₁ rest p' := by
  rw [Runs, List.foldlM_append]
  exact bind_eq_ok_iff

theorem finish_eq_ok_iff {c : Catalog} : p.finish = .ok c ↔ p = .top c := by
  cases p with
  | top catalog => cases catalog <;> simp [Position.finish]
  | _ => simp [Position.finish]

theorem ofEvents_eq_ok_iff {events : List Event} {c : Catalog} :
    Catalog.ofEvents events = .ok c ↔ Runs (.top none) events (.top c) := by
  rw [Catalog.ofEvents, bind_eq_ok_iff]
  constructor
  · rintro ⟨p, hrun, hfinish⟩
    rwa [← finish_eq_ok_iff.1 hfinish]
  · exact fun hrun => ⟨_, hrun, finish_eq_ok_iff.2 rfl⟩

end RecordSchema.CatalogDocument
