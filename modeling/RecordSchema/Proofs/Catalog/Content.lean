import RecordSchema.Proofs.Catalog.Alignment

/-!
# What a document declares

The elements of a document taken by themselves, without the reader: a record element declares what
its field elements do, and a field element has the records in place and the choices between its
tags.  The reader goes through all of them and adds up what they declare.  It keeps the last record
in place of a field, and the records behind the last catalog tag.
-/

namespace RecordSchema.CatalogDocument

open Markup (Element Event Nested noteOpen)

variable {p p' : Position} {ev : Event} {events inner rest : List Event} {outside : List String}
  {name : String} {e : Element} {owner : Owner} {before fields : List FieldDecl}
  {field : OpenField} {c : Catalog}

/-! ## Elements -/

/-- An event that is no tag. -/
def isSilent : Event → Bool
  | .text _ | .reference _ | .cdata _ | .comment _ | .instruction _ | .doctype _ => true
  | _ => false

/-- The texts of a choice, without the blanks around them. -/
def choiceText (inner : List Event) : String :=
  inner.foldr (fun ev text =>
    match ev with
    | .text content => Text.trim content ++ text
    | _ => text) ""

mutual

/-- The fields declared between the tags of a record element. -/
inductive FieldsIn : List Event → List FieldDecl → Prop
  | nil : FieldsIn [] []
  | skip {ev : Event} {rest : List Event} {fields : List FieldDecl} (silent : isSilent ev = true)
      (tail : FieldsIn rest fields) : FieldsIn (ev :: rest) fields
  | emptyField {e : Element} {embedded : Bool} {f : FieldDecl} {rest : List Event}
      {fields : List FieldDecl} (tag : e.name = fieldTag embedded)
      (decl : emptyField embedded e = .ok f) (tail : FieldsIn rest fields) :
      FieldsIn (.selfClosing e :: rest) (f :: fields)
  /-- Of the records in place the last one counts; `OpenField.ty_of_finish_inline` tells how it is
  the type of the field. -/
  | field {e : Element} {embedded : Bool} {head : FieldHead} {inner rest : List Event}
      {inlines : List RecordDecl} {choices : List String} {f : FieldDecl}
      {fields : List FieldDecl} (tag : e.name = fieldTag embedded)
      (head_eq : FieldHead.ofElement embedded e = .ok head)
      (content : ContentIn inner inlines choices)
      (decl : OpenField.finish { head, choices, inline := inlines.getLast? } = .ok f)
      (tail : FieldsIn rest fields) :
      FieldsIn (.opening e :: (inner ++ .closing e.name :: rest)) (f :: fields)

/-- The records in place and the choices between the tags of a field element. -/
inductive ContentIn : List Event → List RecordDecl → List String → Prop
  | nil : ContentIn [] [] []
  | skip {ev : Event} {rest : List Event} {inlines : List RecordDecl} {choices : List String}
      (silent : isSilent ev = true) (tail : ContentIn rest inlines choices) :
      ContentIn (ev :: rest) inlines choices
  | emptyRecord {e : Element} {rest : List Event} {inlines : List RecordDecl}
      {choices : List String} (tag : e.name = "record") (tail : ContentIn rest inlines choices) :
      ContentIn (.selfClosing e :: rest) ({} :: inlines) choices
  | record {e : Element} {inner rest : List Event} {fields : List FieldDecl}
      {inlines : List RecordDecl} {choices : List String} (tag : e.name = "record")
      (content : FieldsIn inner fields) (tail : ContentIn rest inlines choices) :
      ContentIn (.opening e :: (inner ++ .closing e.name :: rest)) ({ fields } :: inlines) choices
  | emptyChoice {e : Element} {rest : List Event} {inlines : List RecordDecl}
      {choices : List String} (tag : e.name = "choice") (tail : ContentIn rest inlines choices) :
      ContentIn (.selfClosing e :: rest) inlines choices
  | choice {e : Element} {inner rest : List Event} {inlines : List RecordDecl}
      {choices : List String} (tag : e.name = "choice") (flat : ∀ ev ∈ inner, ev.isFlat = true)
      (tail : ContentIn rest inlines choices) :
      ContentIn (.opening e :: (inner ++ .closing e.name :: rest)) inlines
        (choiceText inner :: choices)

end

/-- What stands behind a catalog tag. -/
structure Section where
  package : String
  records : List RecordDecl

/-- The sections of a part of a document that ends outside of records. -/
inductive SectionsIn : List Event → List Section → Prop
  | nil : SectionsIn [] []
  | skip {ev : Event} {read : List Event} {sections : List Section}
      (front : SectionsIn read sections) (silent : isSilent ev = true) :
      SectionsIn (read ++ [ev]) sections
  | closing {name : String} {read : List Event} {sections : List Section}
      (front : SectionsIn read sections) : SectionsIn (read ++ [.closing name]) sections
  | catalog {e : Element} {ev : Event} {read : List Event} {sections : List Section}
      (front : SectionsIn read sections) (tag : e.name = "catalog")
      (event : ev = .opening e ∨ ev = .selfClosing e) :
      SectionsIn (read ++ [ev]) (sections ++ [⟨(catalogHead e).package, []⟩])
  | emptyRecord {e : Element} {head : RecordDecl} {read : List Event} {sections : List Section}
      {last : Section} (front : SectionsIn read (sections ++ [last])) (tag : e.name = "record")
      (head_eq : recordHead last.package e = .ok head) :
      SectionsIn (read ++ [.selfClosing e])
        (sections ++ [{ last with records := last.records ++ [head] }])
  | record {e : Element} {head : RecordDecl} {read inner : List Event} {fields : List FieldDecl}
      {sections : List Section} {last : Section}
      (front : SectionsIn read (sections ++ [last])) (tag : e.name = "record")
      (head_eq : recordHead last.package e = .ok head) (content : FieldsIn inner fields) :
      SectionsIn (read ++ .opening e :: (inner ++ [.closing e.name]))
        (sections ++ [{ last with records := last.records ++ [{ head with fields }] }])

/-! ## Reading elements -/

/-- Events that can be read inside the open elements `opened`, with no element inside a choice. -/
structure Orderly (opened : List String) (events : List Event) : Prop where
  nested : Nested opened events
  quiet : QuietFrom opened events

theorem Orderly.tail {opened : List String} (h : Orderly opened (ev :: rest)) :
    Orderly (noteOpen opened ev) rest :=
  ⟨h.nested.tail, (quietFrom_cons_iff.1 h.quiet).2⟩

theorem Orderly.closing_eq {opened : List String} {found : String}
    (h : Orderly (name :: opened) (.closing found :: rest)) : found = name := by
  obtain ⟨_, heq⟩ := h.nested.eq_cons_of_closing
  exact (List.cons.inj heq).1.symm

theorem Orderly.tail_of_isFlat {opened : List String} (h : Orderly opened (ev :: rest))
    (hflat : ev.isFlat = true) : Orderly opened rest := by
  have htail := h.tail
  rwa [Markup.noteOpen_of_isFlat hflat] at htail

theorem isFlat_of_isSilent (h : isSilent ev = true) : ev.isFlat = true := by
  cases ev <;> first | rfl | cases h

/-- What is passed over in a choice is no text, and no start tag if no element starts there. -/
theorem choiceText_cons_of_passesOver {text : String} {opened : List String}
    (h : (Position.choice owner before field text).passesOver ev = true)
    (horderly : Orderly ("choice" :: opened) (ev :: rest)) (inner : List Event) :
    ev.isFlat = true ∧ choiceText (ev :: inner) = choiceText inner := by
  cases ev with
  | opening e => exact absurd rfl ((quietFrom_cons_iff.1 horderly.quiet).1 ⟨e, rfl⟩)
  | closing | fault | text => cases h
  | _ => exact ⟨rfl, rfl⟩

/-- A choice is read up to its end tag. -/
theorem exists_choice {text : String}
    (hrun : Runs (.choice owner before field text) events (.top c))
    (h : Orderly ("choice" :: outside) events) :
    ∃ inner rest, events = inner ++ .closing "choice" :: rest ∧
      (∀ ev ∈ inner, ev.isFlat = true) ∧
      Runs (.field owner before
        { field with choices := field.choices ++ [text ++ choiceText inner] }) rest (.top c) ∧
      Orderly outside rest := by
  induction events generalizing text with
  | nil => cases runs_nil_iff.1 hrun
  | cons ev events ih =>
      obtain ⟨p, hstep, hrest⟩ := runs_cons_iff.1 hrun
      cases steps_of_step hstep with
      | skip passed =>
          have hflat := (choiceText_cons_of_passesOver passed h []).1
          obtain ⟨inner, rest, rfl, hinner, hfield, hout⟩ := ih hrest (h.tail_of_isFlat hflat)
          rw [← (choiceText_cons_of_passesOver passed h inner).2] at hfield
          exact ⟨ev :: inner, rest, rfl, List.forall_mem_cons.2 ⟨hflat, hinner⟩, hfield, hout⟩
      | closeChoice =>
          obtain rfl := h.closing_eq
          exact ⟨[], events, rfl, by simp, by simpa [choiceText] using hrest, h.tail⟩
      | @text _ _ _ _ content =>
          obtain ⟨inner, rest, rfl, hinner, hfield, hout⟩ := ih hrest (h.tail_of_isFlat rfl)
          rw [String.append_assoc] at hfield
          exact ⟨.text content :: inner, rest, rfl, List.forall_mem_cons.2 ⟨rfl, hinner⟩, hfield,
            hout⟩

/-- The rest of a record element has been read up to its end tag, and the fields have been handed
to what they belong to. -/
def FieldsRead (c : Catalog) (outside : List String) (owner : Owner) (before : List FieldDecl)
    (events : List Event) : Prop :=
  ∃ inner fields rest p, events = inner ++ .closing "record" :: rest ∧ FieldsIn inner fields ∧
    closeFields (before ++ fields) owner = .ok p ∧ Runs p rest (.top c) ∧ Orderly outside rest

/-- The rest of a field element has been read up to its end tag, and the field has been added. -/
def ContentRead (c : Catalog) (outside : List String) (owner : Owner) (before : List FieldDecl)
    (field : OpenField) (events : List Event) : Prop :=
  ∃ inner inlines choices rest f, events = inner ++ .closing field.head.elementName :: rest ∧
    ContentIn inner inlines choices ∧
    OpenField.finish { field with
      choices := field.choices ++ choices, inline := inlines.getLast?.or field.inline } = .ok f ∧
    Runs (.fields owner (before ++ [f])) rest (.top c) ∧ Orderly outside rest

namespace FieldsRead

theorem cons_silent (h : FieldsRead c outside owner before rest) (hsilent : isSilent ev = true) :
    FieldsRead c outside owner before (ev :: rest) := by
  obtain ⟨inner, fields, rest, p, rfl, hfields, hclose, hrun, hout⟩ := h
  exact ⟨ev :: inner, fields, rest, p, rfl, .skip hsilent hfields, hclose, hrun, hout⟩

theorem cons_emptyField {embedded : Bool} {f : FieldDecl}
    (h : FieldsRead c outside owner (before ++ [f]) rest) (tag : e.name = fieldTag embedded)
    (decl : emptyField embedded e = .ok f) :
    FieldsRead c outside owner before (.selfClosing e :: rest) := by
  obtain ⟨inner, fields, rest, p, rfl, hfields, hclose, hrun, hout⟩ := h
  rw [List.append_assoc] at hclose
  exact ⟨.selfClosing e :: inner, f :: fields, rest, p, rfl, .emptyField tag decl hfields, hclose,
    hrun, hout⟩

theorem cons_field {embedded : Bool} {head : FieldHead} {inlines : List RecordDecl}
    {choices : List String} {f : FieldDecl} (h : FieldsRead c outside owner (before ++ [f]) rest)
    (tag : e.name = fieldTag embedded) (head_eq : FieldHead.ofElement embedded e = .ok head)
    (content : ContentIn inner inlines choices)
    (decl : OpenField.finish { head, choices, inline := inlines.getLast? } = .ok f) :
    FieldsRead c outside owner before (.opening e :: (inner ++ .closing e.name :: rest)) := by
  obtain ⟨inner', fields, rest, p, rfl, hfields, hclose, hrun, hout⟩ := h
  rw [List.append_assoc] at hclose
  refine ⟨.opening e :: (inner ++ .closing e.name :: inner'), f :: fields, rest, p, ?_,
    .field tag head_eq content decl hfields, hclose, hrun, hout⟩
  simp

end FieldsRead

namespace ContentRead

theorem cons_silent (h : ContentRead c outside owner before field rest)
    (hsilent : isSilent ev = true) : ContentRead c outside owner before field (ev :: rest) := by
  obtain ⟨inner, inlines, choices, rest, f, rfl, hcontent, hfinish, hrun, hout⟩ := h
  exact ⟨ev :: inner, inlines, choices, rest, f, rfl, .skip hsilent hcontent, hfinish, hrun, hout⟩

/-- A record in place counts until there is another one. -/
theorem getLast?_cons_or (r : RecordDecl) (inlines : List RecordDecl) (old : Option RecordDecl) :
    (r :: inlines).getLast?.or old = inlines.getLast?.or (some r) := by
  rw [List.getLast?_cons, Option.some_or]
  cases inlines.getLast? <;> rfl

theorem cons_emptyRecord
    (h : ContentRead c outside owner before { field with inline := some {} } rest)
    (tag : e.name = "record") :
    ContentRead c outside owner before field (.selfClosing e :: rest) := by
  obtain ⟨inner, inlines, choices, rest, f, rfl, hcontent, hfinish, hrun, hout⟩ := h
  refine ⟨.selfClosing e :: inner, {} :: inlines, choices, rest, f, rfl,
    .emptyRecord tag hcontent, ?_, hrun, hout⟩
  rwa [getLast?_cons_or]

theorem cons_record
    (h : ContentRead c outside owner before { field with inline := some { fields } } rest)
    (tag : e.name = "record") (hfields : FieldsIn inner fields) :
    ContentRead c outside owner before field
      (.opening e :: (inner ++ .closing e.name :: rest)) := by
  obtain ⟨inner', inlines, choices, rest, f, rfl, hcontent, hfinish, hrun, hout⟩ := h
  refine ⟨.opening e :: (inner ++ .closing e.name :: inner'), { fields } :: inlines, choices, rest,
    f, ?_, .record tag hfields hcontent, ?_, hrun, hout⟩
  · simp
  · rwa [getLast?_cons_or]

theorem cons_emptyChoice (h : ContentRead c outside owner before field rest)
    (tag : e.name = "choice") :
    ContentRead c outside owner before field (.selfClosing e :: rest) := by
  obtain ⟨inner, inlines, choices, rest, f, rfl, hcontent, hfinish, hrun, hout⟩ := h
  exact ⟨.selfClosing e :: inner, inlines, choices, rest, f, rfl, .emptyChoice tag hcontent,
    hfinish, hrun, hout⟩

theorem cons_choice
    (h : ContentRead c outside owner before
      { field with choices := field.choices ++ [choiceText inner] } rest)
    (tag : e.name = "choice") (hflat : ∀ ev ∈ inner, ev.isFlat = true) :
    ContentRead c outside owner before field
      (.opening e :: (inner ++ .closing e.name :: rest)) := by
  obtain ⟨inner', inlines, choices, rest, f, rfl, hcontent, hfinish, hrun, hout⟩ := h
  refine ⟨.opening e :: (inner ++ .closing e.name :: inner'), inlines, choiceText inner :: choices,
    rest, f, ?_, .choice tag hflat hcontent, ?_, hrun, hout⟩
  · simp
  · simpa using hfinish

end ContentRead

theorem isSilent_of_passesOver_fields
    (h : (Position.fields owner before).passesOver ev = true) : isSilent ev = true := by
  cases ev <;> first | rfl | cases h

theorem isSilent_of_passesOver_field
    (h : (Position.field owner before field).passesOver ev = true) : isSilent ev = true := by
  cases ev <;> first | rfl | cases h

/-- Up to a number of events, what is left of a record element is read up to its end tag. -/
def ReadsFields (c : Catalog) (n : Nat) : Prop :=
  ∀ owner before outside events, events.length ≤ n → Runs (.fields owner before) events (.top c) →
    Orderly ("record" :: outside) events → FieldsRead c outside owner before events

/-- Up to a number of events, what is left of a field element is read up to its end tag. -/
def ReadsContent (c : Catalog) (n : Nat) : Prop :=
  ∀ owner before field outside events, events.length ≤ n →
    Runs (.field owner before field) events (.top c) →
    Orderly (field.head.elementName :: outside) events →
    ContentRead c outside owner before field events

/-- Behind an element there are no more events than from its start on. -/
theorem length_rest_le {n : Nat} (h : (inner ++ ev :: rest).length ≤ n) : rest.length ≤ n := by
  rw [List.length_append, List.length_cons] at h
  omega

theorem readsFields_succ {n : Nat} (hfields : ReadsFields c n) (hcontent : ReadsContent c n) :
    ReadsFields c (n + 1) := by
  intro owner before outside events hlen hrun h
  cases events with
  | nil => cases runs_nil_iff.1 hrun
  | cons ev events =>
      have hle : events.length ≤ n := Nat.le_of_succ_le_succ hlen
      obtain ⟨p, hstep, hrest⟩ := runs_cons_iff.1 hrun
      cases steps_of_step hstep with
      | skip passed =>
          have hsilent := isSilent_of_passesOver_fields passed
          have htail := h.tail_of_isFlat (isFlat_of_isSilent hsilent)
          exact (hfields _ _ _ _ hle hrest htail).cons_silent hsilent
      | closeFields closed =>
          obtain rfl := h.closing_eq
          refine ⟨[], [], events, p, rfl, .nil, ?_, hrest, h.tail⟩
          rwa [List.append_nil]
      | emptyField tag decl =>
          exact (hfields _ _ _ _ hle hrest (h.tail_of_isFlat rfl)).cons_emptyField tag decl
      | field tag head_eq =>
          have hname := FieldHead.elementName_of_ofElement head_eq
          have htail := h.tail
          rw [noteOpen, tag, ← hname] at htail
          obtain ⟨inner, inlines, choices, rest, f, rfl, hinner, hfinish, hrun, hout⟩ :=
            hcontent _ _ _ _ _ hle hrest htail
          have hlen := length_rest_le hle
          rw [Option.or_none] at hfinish
          have hread := (hfields _ _ _ _ hlen hrun hout).cons_field tag head_eq hinner hfinish
          rwa [tag, ← hname] at hread

theorem readsContent_succ {n : Nat} (hfields : ReadsFields c n) (hcontent : ReadsContent c n) :
    ReadsContent c (n + 1) := by
  intro owner before field outside events hlen hrun h
  cases events with
  | nil => cases runs_nil_iff.1 hrun
  | cons ev events =>
      have hle : events.length ≤ n := Nat.le_of_succ_le_succ hlen
      obtain ⟨p, hstep, hrest⟩ := runs_cons_iff.1 hrun
      cases steps_of_step hstep with
      | skip passed =>
          have hsilent := isSilent_of_passesOver_field passed
          have htail := h.tail_of_isFlat (isFlat_of_isSilent hsilent)
          exact (hcontent _ _ _ _ _ hle hrest htail).cons_silent hsilent
      | closeField decl =>
          obtain rfl := h.closing_eq
          refine ⟨[], [], [], events, _, rfl, .nil, ?_, hrest, h.tail⟩
          rwa [List.append_nil]
      | emptyInline tag =>
          exact (hcontent _ _ _ _ _ hle hrest (h.tail_of_isFlat rfl)).cons_emptyRecord tag
      | emptyChoice tag =>
          exact (hcontent _ _ _ _ _ hle hrest (h.tail_of_isFlat rfl)).cons_emptyChoice tag
      | inline tag =>
          have htail := h.tail
          rw [noteOpen, tag] at htail
          obtain ⟨inner, fields, rest, p, rfl, hinner, hclose, hrun, hout⟩ :=
            hfields _ _ _ _ hle hrest htail
          have hlen := length_rest_le hle
          cases hclose
          have hread := (hcontent _ _ _ _ _ hlen hrun hout).cons_record tag hinner
          rwa [tag] at hread
      | choice tag =>
          have htail := h.tail
          rw [noteOpen, tag] at htail
          obtain ⟨inner, rest, rfl, hflat, hrun, hout⟩ := exists_choice hrest htail
          have hlen := length_rest_le hle
          rw [String.empty_append] at hrun
          have hread := (hcontent _ _ _ _ _ hlen hrun hout).cons_choice tag hflat
          rwa [tag] at hread

/-- The events inside an element are fewer than those of it, so both kinds of elements are read at
once. -/
theorem reads_elements (c : Catalog) (n : Nat) : ReadsFields c n ∧ ReadsContent c n := by
  induction n with
  | zero =>
      constructor
      · intro owner before outside events hlen hrun
        obtain rfl := List.length_eq_zero_iff.1 (Nat.le_zero.1 hlen)
        cases runs_nil_iff.1 hrun
      · intro owner before field outside events hlen hrun
        obtain rfl := List.length_eq_zero_iff.1 (Nat.le_zero.1 hlen)
        cases runs_nil_iff.1 hrun
  | succ n ih => exact ⟨readsFields_succ ih.1 ih.2, readsContent_succ ih.1 ih.2⟩

theorem fieldsRead (hrun : Runs (.fields owner before) events (.top c))
    (h : Orderly ("record" :: outside) events) : FieldsRead c outside owner before events :=
  (reads_elements c events.length).1 owner before outside events (Nat.le_refl _) hrun h

/-! ## Reading documents -/

/-- What the reader has got of a catalog. -/
def sectionOf (c : Catalog) : Section := ⟨c.package, c.records⟩

theorem sectionOf_addRecord {c c' : Catalog} {r : RecordDecl} (h : addRecord c r = .ok c') :
    sectionOf c' = { sectionOf c with records := c.records ++ [r] } := by
  rw [addRecord, Catalog.insert?] at h
  split at h
  · rename_i heq
    split at heq
    · cases heq
    · cases heq
      cases h
      rfl
  · cases h

/-- The reader has got what stands behind the last catalog tag. -/
theorem exists_sectionsIn {catalog : Option Catalog} {read : List Event} {sections : List Section}
    (hread : SectionsIn read sections) (hlast : sections.getLast? = catalog.map sectionOf)
    (hrun : Runs (.top catalog) events (.top c)) (h : Orderly outside events) :
    ∃ sections, SectionsIn (read ++ events) sections ∧ sections.getLast? = some (sectionOf c) := by
  induction hn : events.length using Nat.strongRecOn
    generalizing events catalog read sections outside with
  | _ n ih =>
      subst hn
      cases events with
      | nil =>
          cases runs_nil_iff.1 hrun
          exact ⟨sections, by rwa [List.append_nil], hlast⟩
      | cons ev events =>
          obtain ⟨p, hstep, hrest⟩ := runs_cons_iff.1 hrun
          have hlt : events.length < (ev :: events).length := Nat.lt_succ_self _
          rw [List.append_cons]
          cases steps_of_step hstep with
          | skip passed =>
              refine ih _ hlt ?_ hlast hrest h.tail rfl
              cases ev with
              | closing name => exact .closing hread
              | opening | selfClosing | fault => cases passed
              | _ => exact .skip hread rfl
          | catalog tag =>
              exact ih _ hlt (.catalog hread tag (.inl rfl)) List.getLast?_concat hrest h.tail rfl
          | emptyCatalog tag =>
              exact ih _ hlt (.catalog hread tag (.inr rfl)) List.getLast?_concat hrest h.tail rfl
          | emptyRecord tag head_eq added =>
              obtain ⟨init, rfl⟩ := List.getLast?_eq_some_iff.1 hlast
              refine ih _ hlt (.emptyRecord hread tag head_eq) ?_ hrest h.tail rfl
              rw [List.getLast?_concat, Option.map_some, sectionOf_addRecord added]
              rfl
          | @record c₀ e head tag head_eq =>
              have htail := h.tail
              rw [noteOpen, tag] at htail
              obtain ⟨inner, fields, rest, p, rfl, hfields, hclose, hrun, hout⟩ :=
                fieldsRead hrest htail
              obtain ⟨c₁, added, hp⟩ := bind_eq_ok_iff.1 hclose
              cases hp
              obtain ⟨init, rfl⟩ := List.getLast?_eq_some_iff.1 hlast
              have hshorter : rest.length <
                  (Event.opening e :: (inner ++ .closing "record" :: rest)).length := by
                simp
                omega
              have hread' := SectionsIn.record hread tag head_eq hfields
              rw [tag] at hread'
              obtain ⟨sections, hsections, hlast⟩ := ih _ hshorter hread'
                (by rw [List.getLast?_concat, Option.map_some, sectionOf_addRecord added]; rfl)
                hrun hout rfl
              exact ⟨sections, by simpa using hsections, hlast⟩

/-- The reader has got what stands behind the last catalog tag, and what stands behind others is
lost: a document in which no element starts inside a choice is divided into sections by its catalog
tags, and the catalog is the last one.  In a section there is one record for each record element, in
their order, and in a record one field for each field element; only of several records in place
inside one field element the last one is taken.  So all records of the document are in the catalog
if and only if there are none in the other sections. -/
theorem parse_declares {document : String} (h : Catalog.parse document = .ok c)
    (hquiet : QuietFrom [] (Markup.events document)) :
    ∃ sections, SectionsIn (Markup.events document) (sections ++ [sectionOf c]) ∧
      ((sections ++ [sectionOf c]).flatMap Section.records = c.records ↔
        ∀ s ∈ sections, s.records = []) := by
  have hrun := ofEvents_eq_ok_iff.1 h
  have hnone : [].getLast? = (none : Option Catalog).map sectionOf := rfl
  obtain ⟨sections, hsections, hlast⟩ := exists_sectionsIn .nil hnone hrun
    ⟨Markup.nested_events document, hquiet⟩
  obtain ⟨init, rfl⟩ := List.getLast?_eq_some_iff.1 hlast
  refine ⟨init, hsections, ?_⟩
  have hlost : (init ++ [sectionOf c]).flatMap Section.records =
      init.flatMap Section.records ++ c.records := by
    rw [List.flatMap_append, List.flatMap_singleton]
    rfl
  rw [hlost, eq_comm, List.self_eq_append_left, List.flatMap_eq_nil_iff]

/-- A document with two records; the first one has a field with choices and a field with a record in
place, and the second one embeds the first.  The lines are broken inside tags, where a line break is
no text. -/
def switchDocument : String :=
  "<catalog package='net'><record name='Link'><field name='State' type='string'
      attr='state'><choice>up</choice><choice>down</choice></field><field name='Ports'
      element='port' list='true' optional='true'><record><field name='Number' type='uint'
      attr='number'/><field name='Peer' type='Link'
      element='peer'/></record></field></record><record
      name='Switch' element='switch'><embed type='Link'/></record></catalog>"

/-- The records of the document. -/
def switchRecords : List RecordDecl :=
  [{ name := "Link"
     package := "net"
     fields :=
      [{ name := "State"
         ty := .scalar .string
         tag := some { name := "state", node := .attr }
         validValues := ["up", "down"] },
       { name := "Ports"
         ty := .optional (.list (.inline
          { fields :=
            [{ name := "Number"
               ty := .scalar .uint
               tag := some { name := "number", node := .attr } },
             { name := "Peer"
               ty := .named "Link"
               tag := some { name := "peer", node := .element } }] }))
         tag := some { name := "port", node := .element } }] },
   { name := "Switch"
     package := "net"
     element := some "switch"
     fields := [.embed (.named "Link")] }]

theorem events_switchDocument : Markup.events switchDocument =
    [.opening ⟨"catalog", [("package", "net")]⟩, .opening ⟨"record", [("name", "Link")]⟩,
     .opening ⟨"field", [("name", "State"), ("type", "string"), ("attr", "state")]⟩,
     .opening ⟨"choice", []⟩, .text "up", .closing "choice",
     .opening ⟨"choice", []⟩, .text "down", .closing "choice", .closing "field",
     .opening ⟨"field",
      [("name", "Ports"), ("element", "port"), ("list", "true"), ("optional", "true")]⟩,
     .opening ⟨"record", []⟩,
     .selfClosing ⟨"field", [("name", "Number"), ("type", "uint"), ("attr", "number")]⟩,
     .selfClosing ⟨"field", [("name", "Peer"), ("type", "Link"), ("element", "peer")]⟩,
     .closing "record", .closing "field", .closing "record",
     .opening ⟨"record", [("name", "Switch"), ("element", "switch")]⟩,
     .selfClosing ⟨"embed", [("type", "Link")]⟩, .closing "record", .closing "catalog"] := by
  have hhead : switchDocument.toList.head? ≠ some '\ufeff' := by
    rw [switchDocument, String.toList_ofList]
    decide
  -- To take the characters from the literal is quadratic in its length; so they are spelled out.
  rw [Markup.events_of_head?_ne hhead, switchDocument, String.toList_ofList]
  decide +kernel

theorem quietFrom_switchDocument : QuietFrom [] (Markup.events switchDocument) := by
  rw [events_switchDocument]
  simp [quietFrom_cons_iff, quietFrom_nil, noteOpen]

/-- Both records are in the catalog in their order, with their fields, and the record in place is
the type of its field. -/
theorem parse_declares_switch :
    ∃ c sections, Catalog.parse switchDocument = .ok c ∧ c.records = switchRecords ∧
      SectionsIn (Markup.events switchDocument) (sections ++ [⟨"net", switchRecords⟩]) ∧
      ((sections ++ [⟨"net", switchRecords⟩]).flatMap Section.records = switchRecords ↔
        ∀ s ∈ sections, s.records = []) := by
  obtain ⟨c, hparse, hsection⟩ :
      ∃ c, Catalog.parse switchDocument = .ok c ∧ sectionOf c = ⟨"net", switchRecords⟩ := by
    rw [Catalog.parse, events_switchDocument]
    exact ⟨_, rfl, rfl⟩
  have hrecords : c.records = switchRecords := congrArg Section.records hsection
  obtain ⟨sections, hsections, hall⟩ := parse_declares hparse quietFrom_switchDocument
  rw [hsection] at hsections hall
  rw [hrecords] at hall
  exact ⟨c, sections, hparse, hrecords, hsections, hall⟩

/-- A catalog that is closed and opened again. -/
def reopenedDocument : String :=
  "<catalog package='net'><record name='A'/></catalog>" ++
    "<catalog package='net'><record name='B'/></catalog>"

/-- The document is accepted, and of its two records the first one is lost. -/
theorem parse_not_declares :
    (Markup.events reopenedDocument).filter (fun ev => ev matches .selfClosing _) =
      [.selfClosing ⟨"record", [("name", "A")]⟩, .selfClosing ⟨"record", [("name", "B")]⟩] ∧
    ∃ c, Catalog.parse reopenedDocument = .ok c ∧ c.names = ["B"] := by
  have hevents : Markup.events reopenedDocument =
      [.opening ⟨"catalog", [("package", "net")]⟩, .selfClosing ⟨"record", [("name", "A")]⟩,
       .closing "catalog", .opening ⟨"catalog", [("package", "net")]⟩,
       .selfClosing ⟨"record", [("name", "B")]⟩, .closing "catalog"] := by
    cbv
  rw [Catalog.parse, hevents]
  exact ⟨rfl, _, rfl, rfl⟩

end RecordSchema.CatalogDocument
