import RecordSchema.Proofs.Catalog.Content
import RecordSchema.Proofs.Catalog.Values
import RecordSchema.Proofs.Markup.Spelling

/-!
# Other spellings

An element without content can be written as one tag or as a start tag and an end tag, and a
character of a text as itself, as a reference or in a CDATA section.  The reader makes the same of
both spellings of an element, unless it is a choice or stands in one.  In a choice it does not hear
what is written as a reference or in a CDATA section, so that the choice is another value; but that
is all that changes.
-/

namespace RecordSchema.CatalogDocument

open Markup (Element Event Spells coded)

variable {p p' : Position} {ev : Event} {before after parts parts' : List Event} {e : Element}
  {chars : List Char} {c c' : Catalog} {d d' : String}

/-! ## What a choice hears -/

theorem choiceText_text (content : String) (rest : List Event) :
    choiceText (.text content :: rest) = Text.trim content ++ choiceText rest := rfl

theorem isSilent_of_spells (h : Spells parts chars) : ∀ ev ∈ parts, isSilent ev = true := by
  induction h with
  | nil => simp
  | text _ ih | cdata _ ih | reference _ _ ih => exact List.forall_mem_cons.2 ⟨rfl, ih⟩

/-- What is visible in a text is heard, unless it is coded. -/
theorem countP_choiceText (h : Spells parts chars) :
    (choiceText parts).toList.countP Text.isVisible + (coded parts).countP Text.isVisible =
      chars.countP Text.isVisible := by
  induction h with
  | nil => rfl
  | @text content parts _ _ ih =>
      have hcoded : coded (.text content :: parts) = coded parts := rfl
      rw [choiceText_text, String.toList_append, List.countP_append, List.countP_append,
        Text.countP_trim, hcoded, Nat.add_assoc, ih]
  | @cdata content parts _ _ ih =>
      have hheard : choiceText (.cdata content :: parts) = choiceText parts := rfl
      rw [hheard, coded, List.countP_append, List.countP_append, ← ih, Nat.add_left_comm]
  | @reference name c parts _ referent _ ih =>
      have hheard : choiceText (.reference name :: parts) = choiceText parts := rfl
      rw [hheard, coded, referent, Option.toList_some, List.singleton_append, List.countP_cons,
        List.countP_cons, ← ih, Nat.add_assoc]

/-- So two spellings of a text are heard as two values if more of it is coded in one of them. -/
theorem choiceText_ne (h : Spells parts chars) (h' : Spells parts' chars)
    (hcoded : (coded parts).countP Text.isVisible ≠ (coded parts').countP Text.isVisible) :
    choiceText parts ≠ choiceText parts' := by
  intro heq
  have hcount := countP_choiceText h
  rw [heq, ← countP_choiceText h'] at hcount
  exact hcoded (Nat.add_left_cancel hcount)

/-! ## Reading on -/

/-- The catalog that is read from a position on. -/
def Position.readOn (p : Position) (events : List Event) : Except ParseError Catalog := do
  (← events.foldlM step p).finish

theorem readOn_eq_ok_iff {events : List Event} :
    p.readOn events = .ok c ↔ Runs p events (.top c) := by
  rw [Position.readOn, bind_eq_ok_iff]
  constructor
  · rintro ⟨p, hrun, hfinish⟩
    rwa [← finish_eq_ok_iff.1 hfinish]
  · exact fun hrun => ⟨_, hrun, finish_eq_ok_iff.2 rfl⟩

theorem readOn_of_runs (h : Runs p before p') (after : List Event) :
    p.readOn (before ++ after) = p'.readOn after := by
  rw [Position.readOn, List.foldlM_append, show before.foldlM Position.step p = .ok p' from h]
  rfl

theorem readOn_cons (h : Steps p ev p') (rest : List Event) :
    p.readOn (ev :: rest) = p'.readOn rest :=
  readOn_of_runs (runs_cons_iff.2 ⟨p', step_of_steps h, runs_nil_iff.2 rfl⟩) rest

theorem parse_eq_readOn (hevents : Markup.events d = before ++ after)
    (hrun : Runs (.top none) before p) : Catalog.parse d = p.readOn after := by
  rw [← readOn_of_runs hrun, ← hevents]
  rfl

/-- Documents with the same beginning are read alike if they are from there on. -/
theorem parse_eq_parse {rest rest' : List Event} (hd : Markup.events d = before ++ rest)
    (hd' : Markup.events d' = before ++ rest')
    (h : ∀ p, Runs (.top none) before p → p.readOn rest = p.readOn rest') :
    Catalog.parse d = Catalog.parse d' := by
  cases hbefore : before.foldlM Position.step (.top none) with
  | ok p => rw [parse_eq_readOn hd hbefore, parse_eq_readOn hd' hbefore, h p hbefore]
  | error e =>
      rw [Catalog.parse, Catalog.parse, hd, hd', Catalog.ofEvents, Catalog.ofEvents,
        List.foldlM_append, List.foldlM_append, hbefore]
      rfl

/-! ## Elements without content -/

/-- Whether the reader makes the same of both spellings of an element without content. -/
def Position.takesEitherWay (p : Position) (e : Element) : Bool :=
  match p with
  | choice .. => false
  | field .. => e.name != "choice"
  | _ => true

theorem fields_eq_nil_of_recordHead {package : String} {head : RecordDecl}
    (h : recordHead package e = .ok head) : head.fields = [] := by
  unfold recordHead at h
  split at h <;> cases h
  rfl

/-- A field element without content is read alike in both spellings. -/
theorem emptyField_eq (embedded : Bool) (e : Element) (owner : Owner) (before : List FieldDecl)
    (name : String) :
    (do return Position.fields owner (before ++ [← emptyField embedded e])) =
      (do return Position.field owner before { head := ← FieldHead.ofElement embedded e }) >>=
        (Position.step · (.closing name)) := by
  rw [emptyField]
  cases FieldHead.ofElement embedded e <;> rfl

/-- A self-closing tag is as good as two tags. -/
theorem step_selfClosing (h : p.takesEitherWay e = true) (name : String) :
    p.step (.selfClosing e) = p.step (.opening e) >>= (·.step (.closing name)) := by
  cases p with
  | top catalog =>
      simp only [Position.step, stepTop]
      split
      · rfl
      · cases catalog with
        | none => rfl
        | some c =>
            cases hhead : recordHead c.package e with
            | error fault => simp only [hhead]; rfl
            | ok head =>
                have hfields : { head with fields := [] } = head := by
                  cases head
                  cases fields_eq_nil_of_recordHead hhead
                  rfl
                simp only [hhead]
                change _ = closeFields [] (.record c head)
                rw [closeFields, hfields]
                rfl
      · rfl
  | fields owner before =>
      simp only [Position.step, stepFields]
      split
      · exact emptyField_eq false e owner before name
      · exact emptyField_eq true e owner before name
      · rfl
  | field owner before f =>
      have hname : e.name ≠ "choice" := by simpa [Position.takesEitherWay] using h
      simp only [Position.step, stepField]
      split
      · rfl
      · rename_i hchoice
        exact absurd hchoice hname
      · rfl
  | choice => cases h

theorem readOn_selfClosing (h : p.takesEitherWay e = true) (name : String) :
    p.readOn (.selfClosing e :: after) = p.readOn (.opening e :: .closing name :: after) := by
  simp only [Position.readOn, List.foldlM_cons, step_selfClosing h name, bind_assoc]

/-! ## Documents -/

/-- Neither is a catalog, or both are and they differ in valid values at most. -/
def SameButValues (r r' : Except ParseError Catalog) : Prop :=
  (∀ c, r = .ok c → ∃ c', r' = .ok c' ∧ c.EqButValues c') ∧
    ∀ c', r' = .ok c' → ∃ c, r = .ok c ∧ c.EqButValues c'

theorem sameButValues_readOn (h : p.EqButValues p') (events : List Event) :
    SameButValues (p.readOn events) (p'.readOn events) := by
  constructor
  · intro c hread
    obtain ⟨q, hrun, heq⟩ := h.exists_runs (readOn_eq_ok_iff.1 hread)
    cases heq with
    | top catalog => exact ⟨_, readOn_eq_ok_iff.2 hrun, catalog⟩
  · intro c' hread
    obtain ⟨q, hrun, heq⟩ := h.symm.exists_runs (readOn_eq_ok_iff.1 hread)
    cases heq with
    | top catalog => exact ⟨_, readOn_eq_ok_iff.2 hrun, catalog.symm⟩

/-- A choice takes in the texts that stand in it. -/
theorem runs_choice {owner : Owner} {decls : List FieldDecl} {f : OpenField} {text : String}
    (h : ∀ ev ∈ parts, isSilent ev = true) :
    Runs (.choice owner decls f text) parts (.choice owner decls f (text ++ choiceText parts)) := by
  induction parts generalizing text with
  | nil => exact runs_nil_iff.2 (by rw [choiceText, List.foldr_nil, String.append_empty])
  | cons ev parts ih =>
      obtain ⟨hev, hparts⟩ := List.forall_mem_cons.1 h
      cases ev with
      | text content =>
          rw [choiceText_text, ← String.append_assoc]
          exact runs_cons_iff.2 ⟨_, rfl, ih hparts⟩
      | opening | selfClosing | closing | fault => cases hev
      | _ => exact runs_cons_iff.2 ⟨_, rfl, ih hparts⟩

/-- An element without content is one tag in the first document and two in the second. -/
structure ElementRespelled (d d' : String) (before : List Event) (e : Element)
    (after : List Event) : Prop where
  oneTag : Markup.events d = before ++ .selfClosing e :: after
  twoTags : Markup.events d' = before ++ .opening e :: .closing e.name :: after

/-- Some characters are spelled in two ways in the documents. -/
structure TextRespelled (d d' : String) (before parts parts' : List Event) (chars : List Char)
    (after : List Event) : Prop where
  events : Markup.events d = before ++ (parts ++ after)
  events' : Markup.events d' = before ++ (parts' ++ after)
  spells : Spells parts chars
  spells' : Spells parts' chars

/-- Documents that spell the same are read alike, but for choices.  An element without content may
be one tag or two, unless it is a choice or stands in one.  A choice without content gives no value
as one tag and an empty value as two, and inside a choice two tags end it.  The value of a choice is
made of its plain texts, so it is another one if more of it is coded, and visible, in one document
than in the other.  By an empty choice or a text nothing but valid values can change. -/
theorem parse_respelled (d d' : String) (before after : List Event) :
    (∀ e, ElementRespelled d d' before e after →
      ((∀ p, Runs (.top none) before p → p.takesEitherWay e = true) →
        Catalog.parse d = Catalog.parse d') ∧
      (∀ owner decls f, Runs (.top none) before (.field owner decls f) → e.name = "choice" →
        Catalog.parse d = (Position.field owner decls f).readOn after ∧
        Catalog.parse d' = (Position.field owner decls
          { f with choices := f.choices ++ [""] }).readOn after ∧
        SameButValues (Catalog.parse d) (Catalog.parse d')) ∧
      ∀ owner decls f text, Runs (.top none) before (.choice owner decls f text) →
        Catalog.parse d = (Position.choice owner decls f text).readOn after ∧
        Catalog.parse d' = (Position.field owner decls
          { f with choices := f.choices ++ [text] }).readOn after) ∧
    ∀ parts parts' chars text, TextRespelled d d' before parts parts' chars after →
      ∀ owner decls f, Runs (.top none) before (.choice owner decls f text) →
        Catalog.parse d = (Position.choice owner decls f (text ++ choiceText parts)).readOn after ∧
        Catalog.parse d' =
          (Position.choice owner decls f (text ++ choiceText parts')).readOn after ∧
        SameButValues (Catalog.parse d) (Catalog.parse d') ∧
        (choiceText parts = choiceText parts' → Catalog.parse d = Catalog.parse d') ∧
        ((coded parts).countP Text.isVisible ≠ (coded parts').countP Text.isVisible →
          choiceText parts ≠ choiceText parts') := by
  refine ⟨fun e h => ⟨fun hplace => ?_, fun owner decls f hplace hname => ?_,
    fun owner decls f text hplace => ?_⟩, fun parts parts' chars text h owner decls f hplace => ?_⟩
  · exact parse_eq_parse h.oneTag h.twoTags fun p hp => readOn_selfClosing (hplace p hp) e.name
  · have hone : Catalog.parse d = (Position.field owner decls f).readOn after := by
      rw [parse_eq_readOn h.oneTag hplace, readOn_cons (.emptyChoice hname)]
    have htwo : Catalog.parse d' =
        (Position.field owner decls { f with choices := f.choices ++ [""] }).readOn after := by
      rw [parse_eq_readOn h.twoTags hplace, readOn_cons (.choice hname), readOn_cons .closeChoice]
    have heq : (Position.field owner decls f).EqButValues
        (.field owner decls { f with choices := f.choices ++ [""] }) :=
      .field (.refl owner) rfl ⟨rfl, rfl⟩
    refine ⟨hone, htwo, ?_⟩
    rw [hone, htwo]
    exact sameButValues_readOn heq after
  · constructor
    · rw [parse_eq_readOn h.oneTag hplace, readOn_cons (.skip rfl)]
    · rw [parse_eq_readOn h.twoTags hplace, readOn_cons (.skip rfl), readOn_cons .closeChoice]
  · have hfirst : Catalog.parse d =
        (Position.choice owner decls f (text ++ choiceText parts)).readOn after := by
      rw [parse_eq_readOn h.events hplace,
        readOn_of_runs (runs_choice (isSilent_of_spells h.spells))]
    have hsecond : Catalog.parse d' =
        (Position.choice owner decls f (text ++ choiceText parts')).readOn after := by
      rw [parse_eq_readOn h.events' hplace,
        readOn_of_runs (runs_choice (isSilent_of_spells h.spells'))]
    refine ⟨hfirst, hsecond, ?_, fun heq => ?_, choiceText_ne h.spells h.spells'⟩
    · rw [hfirst, hsecond]
      exact sameButValues_readOn (.choice (.refl owner) rfl (.refl f)) after
    · rw [hfirst, hsecond, heq]

/-! ## Spellings of one document -/

def stateFront : String :=
  "<catalog package='net'><record name='Link'><field name='State' type='string' attr='state'>"

/-- A document with one field, and what is written inside it. -/
def stateDocument (content : String) : String :=
  stateFront ++ (content ++ "</field></record></catalog>")

def stateOpening : List Event :=
  [.opening ⟨"catalog", [("package", "net")]⟩, .opening ⟨"record", [("name", "Link")]⟩,
   .opening ⟨"field", [("name", "State"), ("type", "string"), ("attr", "state")]⟩]

def stateClosing : List Event := [.closing "field", .closing "record", .closing "catalog"]

/-- The text has the events in it, wherever it stands. -/
def IsWritten (content : String) (inner : List Event) : Prop :=
  ∀ opened rest, Markup.eventsWithin opened (content.toList ++ rest) =
    inner ++ Markup.eventsWithin opened rest

theorem events_stateDocument {content : String} {inner : List Event} (h : IsWritten content inner) :
    Markup.events (stateDocument content) = stateOpening ++ (inner ++ stateClosing) := by
  have hfront (rest : List Char) : Markup.eventsWithin [] (stateFront.toList ++ rest) =
      stateOpening ++ Markup.eventsWithin ["field", "record", "catalog"] rest := by
    cbv
  have hback : Markup.eventsWithin ["field", "record", "catalog"]
      "</field></record></catalog>".toList = stateClosing := by
    cbv
  have hhead : (stateDocument content).toList.head? ≠ some '\ufeff' := by
    have hfirst : stateFront.toList.head? = some '<' := by decide
    rw [stateDocument, String.toList_append, List.head?_append, hfirst, Option.some_or]
    decide
  rw [Markup.events_of_head?_ne hhead, stateDocument, String.toList_append, hfront,
    String.toList_append, h, hback]

theorem isWritten_oneTag : IsWritten "<choice/>" [.selfClosing ⟨"choice", []⟩] := by
  intro opened rest
  cbv

theorem isWritten_twoTags :
    IsWritten "<choice></choice>" [.opening ⟨"choice", []⟩, .closing "choice"] := by
  intro opened rest
  cbv

theorem isWritten_text :
    IsWritten "<choice>up</choice>" [.opening ⟨"choice", []⟩, .text "up", .closing "choice"] := by
  intro opened rest
  cbv

theorem isWritten_reference : IsWritten "<choice>u&#112;</choice>"
    [.opening ⟨"choice", []⟩, .text "u", .reference "#112", .closing "choice"] := by
  intro opened rest
  cbv

theorem isWritten_cdata : IsWritten "<choice><![CDATA[up]]></choice>"
    [.opening ⟨"choice", []⟩, .cdata "up", .closing "choice"] := by
  intro opened rest
  have hopening (rest : List Char) : Markup.eventsWithin opened ("<choice>".toList ++ rest) =
      .opening ⟨"choice", []⟩ :: Markup.eventsWithin ("choice" :: opened) rest := by
    cbv
  have hscan (rest : List Char) :
      Markup.scanEvent '<' ("![CDATA[up]]>".toList ++ rest) = .ok (.cdata "up", rest) := by
    cbv
  have hclosing : Markup.eventsWithin ("choice" :: opened) ("</choice>".toList ++ rest) =
      .closing "choice" :: Markup.eventsWithin opened rest := by
    cbv
  have htext : "<choice><![CDATA[up]]></choice>".toList ++ rest =
      "<choice>".toList ++ '<' :: ("![CDATA[up]]>".toList ++ ("</choice>".toList ++ rest)) := by
    simp
  rw [htext, hopening, Markup.eventsWithin_flat rfl (hscan _), hclosing]
  rfl

def oneTagRecord : String := "<catalog><record name='Link'/></catalog>"

def twoTagsRecord : String := "<catalog><record name='Link'></record></catalog>"

theorem elementRespelled_record :
    ElementRespelled oneTagRecord twoTagsRecord [.opening ⟨"catalog", []⟩]
      ⟨"record", [("name", "Link")]⟩ [.closing "catalog"] where
  oneTag := by cbv
  twoTags := by cbv

theorem elementRespelled_choice :
    ElementRespelled (stateDocument "<choice/>") (stateDocument "<choice></choice>") stateOpening
      ⟨"choice", []⟩ stateClosing :=
  ⟨events_stateDocument isWritten_oneTag, events_stateDocument isWritten_twoTags⟩

theorem textRespelled_reference :
    TextRespelled (stateDocument "<choice>up</choice>") (stateDocument "<choice>u&#112;</choice>")
      (stateOpening ++ [.opening ⟨"choice", []⟩]) [.text "up"] [.text "u", .reference "#112"]
      ['u', 'p'] (.closing "choice" :: stateClosing) where
  events := events_stateDocument isWritten_text
  events' := events_stateDocument isWritten_reference
  spells := .text .nil
  spells' := .text (.reference (by decide) .nil)

theorem textRespelled_cdata :
    TextRespelled (stateDocument "<choice>up</choice>")
      (stateDocument "<choice><![CDATA[up]]></choice>") (stateOpening ++ [.opening ⟨"choice", []⟩])
      [.text "up"] [.cdata "up"] ['u', 'p'] (.closing "choice" :: stateClosing) where
  events := events_stateDocument isWritten_text
  events' := events_stateDocument isWritten_cdata
  spells := .text .nil
  spells' := .cdata .nil

theorem parse_respelled_state :
    (∃ c, Catalog.parse oneTagRecord = .ok c ∧ Catalog.parse twoTagsRecord = .ok c) ∧
      SameButValues (Catalog.parse (stateDocument "<choice/>"))
        (Catalog.parse (stateDocument "<choice></choice>")) ∧
      SameButValues (Catalog.parse (stateDocument "<choice>up</choice>"))
        (Catalog.parse (stateDocument "<choice>u&#112;</choice>")) := by
  refine ⟨?_, ?_, ?_⟩
  · have hsame := ((parse_respelled _ _ _ _).1 _ elementRespelled_record).1 fun p hplace => by
      cases hplace
      rfl
    rw [← hsame, Catalog.parse, elementRespelled_record.oneTag]
    exact ⟨_, rfl, rfl⟩
  · exact (((parse_respelled _ _ _ _).1 _ elementRespelled_choice).2.1 _ _ _ rfl rfl).2.2
  · exact ((parse_respelled _ _ _ _).2 _ _ _ _ textRespelled_reference _ _ _ rfl).2.2.1

/-- The valid values of all fields. -/
def valuesOf (c : Catalog) : List String :=
  c.records.flatMap fun r => r.fields.flatMap FieldDecl.validValues

/-- A choice means other values when it is spelled in another way. -/
theorem parse_not_respelled :
    (ElementRespelled (stateDocument "<choice/>") (stateDocument "<choice></choice>") stateOpening
        ⟨"choice", []⟩ stateClosing ∧
      (Catalog.parse (stateDocument "<choice/>")).map valuesOf = .ok [] ∧
      (Catalog.parse (stateDocument "<choice></choice>")).map valuesOf = .ok [""]) ∧
    TextRespelled (stateDocument "<choice>up</choice>") (stateDocument "<choice>u&#112;</choice>")
      (stateOpening ++ [.opening ⟨"choice", []⟩]) [.text "up"] [.text "u", .reference "#112"]
      ['u', 'p'] (.closing "choice" :: stateClosing) ∧
    TextRespelled (stateDocument "<choice>up</choice>")
      (stateDocument "<choice><![CDATA[up]]></choice>") (stateOpening ++ [.opening ⟨"choice", []⟩])
      [.text "up"] [.cdata "up"] ['u', 'p'] (.closing "choice" :: stateClosing) ∧
    (Catalog.parse (stateDocument "<choice>up</choice>")).map valuesOf = .ok ["up"] ∧
    (Catalog.parse (stateDocument "<choice>u&#112;</choice>")).map valuesOf = .ok ["u"] ∧
    (Catalog.parse (stateDocument "<choice><![CDATA[up]]></choice>")).map valuesOf = .ok [""] := by
  have hvalues {content : String} {inner : List Event} {values : List String}
      (h : IsWritten content inner)
      (hread : (Catalog.ofEvents (stateOpening ++ (inner ++ stateClosing))).map valuesOf =
        .ok values) :
      (Catalog.parse (stateDocument content)).map valuesOf = .ok values := by
    rw [Catalog.parse, events_stateDocument h]
    exact hread
  exact ⟨⟨elementRespelled_choice, hvalues isWritten_oneTag rfl, hvalues isWritten_twoTags rfl⟩,
    textRespelled_reference, textRespelled_cdata, hvalues isWritten_text rfl,
    hvalues isWritten_reference rfl, hvalues isWritten_cdata rfl⟩

end RecordSchema.CatalogDocument
