import Mathlib.Data.List.Permutation
import RecordSchema.Proofs.Catalog.Reading

/-!
# Readers and open elements

Every element of a catalog has a reader of its own, which the start tag calls and an end tag ends.
The readers do not look at the names of end tags.  As long as no element starts inside a choice the
readers that are at work are those of the open elements, and a reader ends with its element.  The
start tag of an element inside a choice calls no reader, so from there on every reader ends too
early.
-/

namespace RecordSchema.CatalogDocument

open Markup (Element Event Nested noteOpen openElements)

variable {p p₁ p' : Position} {ev : Event} {events consumed rest : List Event}
  {opened around outside beyond : List String} {name : String} {e : Element}

/-! ## Readers at work -/

/-- The readers at work on a list of fields, innermost first, each called by its element. -/
def Owner.readers : Owner → List String
  | record _ _ => ["record"]
  | inline outer _ field => "record" :: field.head.elementName :: outer.readers

/-- The readers at work at a position. -/
def Position.readers : Position → List String
  | top _ => []
  | fields owner _ => owner.readers
  | field owner _ f => f.head.elementName :: owner.readers
  | choice owner _ f _ => "choice" :: f.head.elementName :: owner.readers

theorem Owner.exists_readers_eq (owner : Owner) : ∃ l, owner.readers = "record" :: l := by
  cases owner <;> exact ⟨_, rfl⟩

theorem FieldHead.elementName_ne_choice (h : FieldHead) : h.elementName ≠ "choice" := by
  rw [h.elementName_eq, fieldTag]
  split <;> decide

/-- Only in a choice an element is passed over. -/
theorem head?_readers_of_passesOver (h : p.passesOver ev = true)
    (hev : ev = .opening e ∨ ev = .selfClosing e) : p.readers.head? = some "choice" := by
  cases p with
  | choice => rfl
  | _ => rcases hev with rfl | rfl <;> cases h

theorem readers_closeFields {before : List FieldDecl} {owner : Owner}
    (h : closeFields before owner = .ok p) : p.readers = owner.readers.tail := by
  cases owner with
  | record catalog head =>
      obtain ⟨c, -, hp⟩ := bind_eq_ok_iff.1 h
      cases hp
      rfl
  | inline outer before field =>
      cases h
      rfl

/-- Inside an element the readers change as the open elements do, but for start tags that are passed
over. -/
theorem readers_of_steps (h : Steps p ev p') (hp : p.readers ≠ []) :
    p'.readers = noteOpen p.readers ev ∨
      p' = p ∧ p.readers.head? = some "choice" ∧ ∃ e, ev = .opening e := by
  cases h with
  | skip passed =>
      cases ev with
      | opening e => exact .inr ⟨rfl, head?_readers_of_passesOver passed (.inl rfl), e, rfl⟩
      | closing name =>
          cases p with
          | top => exact absurd rfl hp
          | _ => cases passed
      | _ => exact .inl rfl
  | catalog | emptyCatalog | record | emptyRecord => exact absurd rfl hp
  | closeFields closed => exact .inl (readers_closeFields closed)
  | @field owner _ _ _ _ tag head_eq =>
      refine .inl ?_
      rw [noteOpen, tag, ← FieldHead.elementName_of_ofElement head_eq]
      rfl
  | inline tag =>
      refine .inl ?_
      rw [noteOpen, tag]
      rfl
  | choice tag =>
      refine .inl ?_
      rw [noteOpen, tag]
      rfl
  | _ => exact .inl rfl

/-- In a choice a start tag is passed over. -/
theorem eq_of_steps_opening (h : Steps p (.opening e) p')
    (hchoice : p.readers.head? = some "choice") : p' = p := by
  cases h with
  | skip => rfl
  | catalog | record => cases hchoice
  | @field owner _ _ _ _ _ _ =>
      obtain ⟨l, hl⟩ := owner.exists_readers_eq
      rw [Position.readers, hl] at hchoice
      exact absurd (Option.some.inj hchoice) (by decide)
  | @inline _ _ f _ _ => exact absurd (Option.some.inj hchoice) f.head.elementName_ne_choice
  | @choice _ _ f _ _ => exact absurd (Option.some.inj hchoice) f.head.elementName_ne_choice

/-! ## Elements inside choices -/

/-- No element starts directly inside a choice, when the elements `opened` are open before the
events. -/
def QuietFrom (opened : List String) (events : List Event) : Prop :=
  ∀ front e back, events = front ++ .opening e :: back →
    (front.foldl noteOpen opened).head? ≠ some "choice"

theorem quietFrom_nil : QuietFrom opened [] := by
  intro front e back h
  simp at h

theorem quietFrom_cons_iff :
    QuietFrom opened (ev :: rest) ↔
      ((∃ e, ev = .opening e) → opened.head? ≠ some "choice") ∧
        QuietFrom (noteOpen opened ev) rest := by
  constructor
  · intro h
    refine ⟨?_, fun front e back heq => h (ev :: front) e back (by rw [heq]; rfl)⟩
    rintro ⟨e, rfl⟩
    exact h [] e rest rfl
  · rintro ⟨hhead, hrest⟩ front e back heq
    cases front with
    | nil =>
        cases heq
        exact hhead ⟨e, rfl⟩
    | cons first front =>
        cases heq
        exact hrest front e back rfl

theorem QuietFrom.of_append (h : QuietFrom opened (consumed ++ rest)) :
    QuietFrom opened consumed := by
  rintro front e back rfl
  exact h front e (back ++ rest) (by rw [List.append_assoc]; rfl)

theorem QuietFrom.foldl (h : QuietFrom opened (consumed ++ rest)) :
    QuietFrom (consumed.foldl noteOpen opened) rest := by
  induction consumed generalizing opened with
  | nil => exact h
  | cons ev consumed ih => exact ih (quietFrom_cons_iff.1 h).2

/-- Where no element starts inside a choice, the readers change as the open elements do. -/
theorem readers_of_quiet (h : Steps p ev p') (hreaders : p.readers = opened ++ around)
    (hopened : opened ≠ []) (hquiet : (∃ e, ev = .opening e) → opened.head? ≠ some "choice") :
    p'.readers = noteOpen opened ev ++ around := by
  have hne : p.readers ≠ [] := by
    rw [hreaders]
    exact List.append_ne_nil_of_left_ne_nil hopened around
  rcases readers_of_steps h hne with heq | ⟨-, hhead, htag⟩
  · rw [heq, hreaders, Markup.noteOpen_append hopened]
  · rw [hreaders, List.head?_append, List.head?_eq_some_head hopened, Option.some_or,
      ← List.head?_eq_some_head hopened] at hhead
    exact absurd hhead (hquiet htag)

/-! ## Calls -/

/-- The reader that was called with the readers `around` at work goes through the events and
returns. -/
inductive Returns (around : List String) : Position → List Event → Position → Prop
  | done {p : Position} (returned : p.readers = around) : Returns around p [] p
  | step {p p₁ p' : Position} {ev : Event} {rest : List Event}
      (active : ∃ own, own ≠ [] ∧ p.readers = own ++ around) (step : p.step ev = .ok p₁)
      (tail : Returns around p₁ rest p') : Returns around p (ev :: rest) p'

/-- The events end with the end tag of the element that is open before them, and nothing in front
closes it. -/
def EndsElement (name : String) (consumed : List Event) : Prop :=
  ∃ inner, consumed = inner ++ [.closing name] ∧
    (∀ read, read <+: inner → read.foldl noteOpen [name] ≠ []) ∧
    consumed.foldl noteOpen [name] = []

namespace Returns

/-- A reader that has returned reads nothing more. -/
theorem eq_nil (h : Returns around p consumed p') (hp : p.readers = around) : consumed = [] := by
  cases h with
  | done => rfl
  | step active _ _ =>
      obtain ⟨own, hown, heq⟩ := active
      rw [hp] at heq
      exact absurd (List.self_eq_append_left.1 heq) hown

/-- A reader that is behind the open elements leaves some of them open when it returns. -/
theorem foldl_ne_nil_of_lt (h : Returns around p consumed p') {own : List String}
    (hreaders : p.readers = own ++ around) (hlt : own.length < opened.length) :
    consumed.foldl noteOpen opened ≠ [] := by
  induction h generalizing own opened with
  | done => exact List.ne_nil_of_length_pos (Nat.zero_lt_of_lt hlt)
  | @step p p₁ _ ev _ active step _ ih =>
      obtain ⟨own', hown, heq⟩ := active
      obtain rfl := List.append_cancel_right (hreaders.symm.trans heq)
      have hne : p.readers ≠ [] := by
        rw [hreaders]
        exact List.append_ne_nil_of_left_ne_nil hown around
      rcases readers_of_steps (steps_of_step step) hne with hnext | ⟨rfl, -, e, rfl⟩
      · rw [hreaders, Markup.noteOpen_append hown] at hnext
        exact ih hnext (Markup.length_noteOpen_lt hown hlt ev)
      · exact ih hreaders (Nat.lt_succ_of_lt hlt)

/-- Where no element starts inside a choice, a reader returns at the end tag of its element. -/
theorem endsElement_of_quiet (h : Returns around p consumed p')
    (hreaders : p.readers = opened ++ around) (hlast : opened.getLast? = some name)
    (hnested : Nested (opened ++ outside) (consumed ++ rest))
    (hquiet : QuietFrom (opened ++ beyond) consumed) :
    ∃ inner, consumed = inner ++ [.closing name] ∧
      (∀ read, read <+: inner → read.foldl noteOpen opened ≠ []) ∧
      consumed.foldl noteOpen opened = [] := by
  induction h generalizing opened with
  | done returned =>
      rw [returned] at hreaders
      rw [List.self_eq_append_left.1 hreaders] at hlast
      cases hlast
  | @step p p₁ _ ev consumed active step tail ih =>
      have hopened := Markup.ne_nil_of_getLast? hlast
      obtain ⟨hhead, hquiet⟩ := quietFrom_cons_iff.1 hquiet
      rw [List.head?_append_of_ne_nil _ hopened] at hhead
      rw [Markup.noteOpen_append hopened] at hquiet
      have hnext := readers_of_quiet (steps_of_step step) hreaders hopened hhead
      by_cases hempty : noteOpen opened ev = []
      · -- the event closes the last element that is open inside
        rw [hempty] at hnext
        obtain rfl := tail.eq_nil hnext
        obtain ⟨found, rfl⟩ := Markup.eq_closing_of_noteOpen_eq_nil hopened hempty
        obtain rfl := hnested.eq_of_closing hopened hempty hlast
        refine ⟨[], rfl, fun read hread => ?_, hempty⟩
        rw [List.prefix_nil.1 hread]
        exact hopened
      · have hnested' : Nested (noteOpen opened ev ++ outside) (consumed ++ rest) := by
          rw [← Markup.noteOpen_append hopened]
          exact hnested.tail
        obtain ⟨inner, rfl, hinner, hend⟩ := ih hnext
          ((Markup.getLast?_noteOpen hopened hempty).trans hlast) hnested' hquiet
        refine ⟨ev :: inner, rfl, fun read hread => ?_, hend⟩
        rcases List.prefix_cons_iff.1 hread with rfl | ⟨inside, rfl, htail⟩
        · exact hopened
        · exact hinner inside htail

/-- A reader that meets an element inside a choice does not return at the end tag of its own
element. -/
theorem foldl_ne_nil_of_not_quiet (h : Returns around p consumed p')
    (hreaders : p.readers = opened ++ around) (hopened : opened ≠ [])
    (hloud : ¬QuietFrom opened consumed) : consumed.foldl noteOpen opened ≠ [] := by
  induction h generalizing opened with
  | done => exact absurd quietFrom_nil hloud
  | @step p p₁ _ ev rest active step tail ih =>
      rw [quietFrom_cons_iff, not_and_or] at hloud
      by_cases hhead : (∃ e, ev = .opening e) → opened.head? ≠ some "choice"
      · have hnext := readers_of_quiet (steps_of_step step) hreaders hopened hhead
        have hrest := hloud.resolve_left (not_not.2 hhead)
        by_cases hempty : noteOpen opened ev = []
        · rw [hempty] at hnext
          rw [tail.eq_nil hnext] at hrest
          exact absurd quietFrom_nil hrest
        · exact ih hnext hempty hrest
      · -- the element calls no reader, so the readers fall behind
        obtain ⟨⟨e, rfl⟩, hchoice⟩ := Classical.not_imp.1 hhead
        rw [not_not] at hchoice
        have hp : p.readers.head? = some "choice" := by
          rw [hreaders, List.head?_append, hchoice, Option.some_or]
        obtain rfl := eq_of_steps_opening (steps_of_step step) hp
        exact tail.foldl_ne_nil_of_lt hreaders (Nat.lt_succ_self _)

/-- A reader returns at the end tag of its element if no element starts inside a choice. -/
theorem endsElement (h : Returns around p consumed p') (hreaders : p.readers = name :: around)
    (hnested : Nested (name :: outside) (consumed ++ rest))
    (hquiet : QuietFrom (name :: beyond) consumed) : EndsElement name consumed :=
  h.endsElement_of_quiet (show p.readers = [name] ++ around from hreaders) rfl hnested hquiet

/-- A reader returns at the end tag of its element if and only if no element starts inside a choice
on the way. -/
theorem endsElement_iff (h : Returns around p consumed p') (hreaders : p.readers = name :: around)
    (hnested : Nested (name :: outside) (consumed ++ rest)) :
    EndsElement name consumed ↔ QuietFrom [name] consumed := by
  constructor
  · rintro ⟨inner, -, -, hend⟩
    by_contra hloud
    exact h.foldl_ne_nil_of_not_quiet hreaders (List.cons_ne_nil _ _) hloud hend
  · exact h.endsElement hreaders hnested

end Returns

/-- Once a reader has been called, it returns before the reader of the whole catalog gets on. -/
theorem exists_returns {catalog : Option Catalog} (h : Runs p events (.top catalog))
    (hreaders : p.readers = opened ++ around) (hopened : opened ≠ []) :
    ∃ consumed rest p', events = consumed ++ rest ∧ Returns around p consumed p' ∧
      Runs p' rest (.top catalog) := by
  induction events generalizing p opened with
  | nil =>
      obtain rfl := runs_nil_iff.1 h
      exact absurd (List.append_eq_nil_iff.1 hreaders.symm).1 hopened
  | cons ev events ih =>
      obtain ⟨p₁, hstep, hrun⟩ := runs_cons_iff.1 h
      have hp : p.readers ≠ [] := by
        rw [hreaders]
        exact List.append_ne_nil_of_left_ne_nil hopened around
      have hactive : ∃ own, own ≠ [] ∧ p.readers = own ++ around := ⟨opened, hopened, hreaders⟩
      -- the readers inside change with the event, or stay as they are
      obtain ⟨own, hown⟩ : ∃ own, p₁.readers = own ++ around := by
        rcases readers_of_steps (steps_of_step hstep) hp with hnext | ⟨rfl, -⟩
        · rw [hreaders, Markup.noteOpen_append hopened] at hnext
          exact ⟨_, hnext⟩
        · exact ⟨opened, hreaders⟩
      by_cases hempty : own = []
      · rw [hempty, List.nil_append] at hown
        exact ⟨[ev], events, p₁, rfl, .step hactive hstep (.done hown), hrun⟩
      · obtain ⟨consumed, rest, p', rfl, hreturns, hrest⟩ := ih hrun hown hempty
        exact ⟨ev :: consumed, rest, p', rfl, .step hactive hstep hreturns, hrest⟩

/-! ## Documents -/

/-- The elements that the reader lets through in an element, or at the top.  The format has catalogs
at the top and records in catalogs.  The reader does not keep track of catalogs, so two more places
are let through that the format does not have: a record at the top, behind a catalog that is closed,
and a catalog inside a catalog. -/
def elementsIn : Option String → List String
  | none | some "catalog" => ["catalog", "record"]
  | some "record" => ["field", "embed"]
  | some "field" | some "embed" => ["record", "choice"]
  | _ => []

theorem elementsIn_head?_of_catalogs (h : ∀ n ∈ outside, n = "catalog") :
    elementsIn outside.head? = ["catalog", "record"] := by
  cases outside with
  | nil => rfl
  | cons first outside =>
      rw [h first List.mem_cons_self]
      rfl

theorem elementsIn_elementName (h : FieldHead) :
    elementsIn (some h.elementName) = ["record", "choice"] := by
  rw [h.elementName_eq, fieldTag]
  split <;> rfl

/-- An element that starts or stands somewhere, not in a choice, is one that is let through there. -/
theorem mem_elementsIn_of_steps (h : Steps p ev p') (hopened : opened = p.readers ++ outside)
    (houtside : ∀ n ∈ outside, n = "catalog") (hev : ev = .opening e ∨ ev = .selfClosing e) :
    opened.head? = some "choice" ∨ e.name ∈ elementsIn opened.head? := by
  subst hopened
  have htop (hname : e.name = "catalog" ∨ e.name = "record") :
      e.name ∈ elementsIn outside.head? := by
    rw [elementsIn_head?_of_catalogs houtside]
    simpa using hname
  have hrecord (owner : Owner) (hname : ∃ embedded, e.name = fieldTag embedded) :
      e.name ∈ elementsIn (owner.readers ++ outside).head? := by
    obtain ⟨l, hl⟩ := owner.exists_readers_eq
    obtain ⟨embedded, hname⟩ := hname
    rw [hl, hname]
    change fieldTag embedded ∈ ["field", "embed"]
    cases embedded <;> decide
  have hfield (f : OpenField) (hname : e.name = "record" ∨ e.name = "choice") :
      e.name ∈ elementsIn (some f.head.elementName) := by
    rw [elementsIn_elementName]
    simpa using hname
  cases h with
  | skip passed =>
      refine .inl ?_
      rw [List.head?_append, head?_readers_of_passesOver passed hev, Option.some_or]
  | catalog tag | emptyCatalog tag =>
      obtain rfl : _ = e := by simpa using hev
      exact .inr (htop (.inl tag))
  | record tag _ | emptyRecord tag _ _ =>
      obtain rfl : _ = e := by simpa using hev
      exact .inr (htop (.inr tag))
  | field tag _ | emptyField tag _ =>
      obtain rfl : _ = e := by simpa using hev
      exact .inr (hrecord _ ⟨_, tag⟩)
  | inline tag | emptyInline tag =>
      obtain rfl : _ = e := by simpa using hev
      exact .inr (hfield _ (.inl tag))
  | choice tag | emptyChoice tag =>
      obtain rfl : _ = e := by simpa using hev
      exact .inr (hfield _ (.inr tag))
  | closeFields | closeField | closeChoice | text => simp at hev

theorem eq_top_of_readers_eq_nil (h : p.readers = []) : ∃ catalog, p = .top catalog := by
  cases p with
  | top catalog => exact ⟨catalog, rfl⟩
  | fields owner before =>
      obtain ⟨l, hl⟩ := owner.exists_readers_eq
      exact absurd (hl.symm.trans h) (List.cons_ne_nil _ _)
  | field => cases h
  | choice => cases h

/-- At the top only catalogs are open. -/
theorem exists_outside_of_steps_top {catalog : Option Catalog} (h : Steps (.top catalog) ev p')
    (hopened : ∀ n ∈ opened, n = "catalog") :
    ∃ outside, noteOpen opened ev = p'.readers ++ outside ∧ ∀ n ∈ outside, n = "catalog" := by
  cases h with
  | skip passed =>
      cases ev with
      | opening => cases passed
      | closing => exact ⟨opened.tail, rfl, fun n hn => hopened n (List.mem_of_mem_tail hn)⟩
      | _ => exact ⟨opened, rfl, hopened⟩
  | @catalog _ e tag => exact ⟨e.name :: opened, rfl, List.forall_mem_cons.2 ⟨tag, hopened⟩⟩
  | @record _ e _ tag => exact ⟨opened, by rw [noteOpen, tag]; rfl, hopened⟩
  | emptyCatalog => exact ⟨opened, rfl, hopened⟩
  | emptyRecord => exact ⟨opened, rfl, hopened⟩

/-- Where no element starts inside a choice, a step keeps the readers at work to the open elements
inside of catalogs. -/
theorem exists_outside_of_steps (h : Steps p ev p')
    (hquiet : (∃ e, ev = .opening e) → opened.head? ≠ some "choice")
    (hopened : opened = p.readers ++ outside) (houtside : ∀ n ∈ outside, n = "catalog") :
    ∃ outside', noteOpen opened ev = p'.readers ++ outside' ∧ ∀ n ∈ outside', n = "catalog" := by
  subst hopened
  by_cases hp : p.readers = []
  · obtain ⟨catalog, rfl⟩ := eq_top_of_readers_eq_nil hp
    exact exists_outside_of_steps_top h houtside
  · rw [List.head?_append_of_ne_nil _ hp] at hquiet
    have hnext := readers_of_quiet h (List.append_nil p.readers).symm hp hquiet
    rw [List.append_nil] at hnext
    exact ⟨outside, by rw [Markup.noteOpen_append hp, hnext], houtside⟩

/-- Where no element starts inside a choice, the open elements are those of the readers at work,
inside of catalogs. -/
theorem exists_outside_of_quiet (h : Runs p events p') (hquiet : QuietFrom opened events)
    (hopened : opened = p.readers ++ outside)
    (houtside : ∀ n ∈ outside, n = "catalog") :
    ∃ outside', events.foldl noteOpen opened = p'.readers ++ outside' ∧
      ∀ n ∈ outside', n = "catalog" := by
  induction events generalizing p opened outside with
  | nil =>
      obtain rfl := runs_nil_iff.1 h
      exact ⟨outside, hopened, houtside⟩
  | cons ev events ih =>
      obtain ⟨p₁, hstep, hrun⟩ := runs_cons_iff.1 h
      obtain ⟨hhead, hquiet⟩ := quietFrom_cons_iff.1 hquiet
      obtain ⟨outside₁, hnext, houtside₁⟩ :=
        exists_outside_of_steps (steps_of_step hstep) hhead hopened houtside
      exact ih hrun hquiet hnext houtside₁

/-- After the events `front` of a document the start tag of `e` calls a reader, with `back` to be
read. -/
structure CalledAt (document : String) (front : List Event) (e : Element) (back : List Event)
    (p p₁ : Position) : Prop where
  events_eq : Markup.events document = front ++ .opening e :: back
  run : Runs (.top none) front p
  step : p.step (.opening e) = .ok p₁
  called : p₁.readers = e.name :: p.readers

theorem CalledAt.nested {document : String} {front back : List Event}
    (h : CalledAt document front e back p p₁) : Nested (e.name :: openElements front) back := by
  have hnested := Markup.nested_events document
  rw [h.events_eq] at hnested
  exact hnested.foldl.tail

/-- What is left of an accepted document is read from where the reader has got to. -/
theorem CalledAt.runs {document : String} {front back : List Event} {c : Catalog}
    (h : CalledAt document front e back p p₁) (hparse : Catalog.parse document = .ok c) :
    Runs p₁ back (.top c) := by
  have hrun := ofEvents_eq_ok_iff.1 hparse
  rw [h.events_eq] at hrun
  obtain ⟨_, hfront, hrest⟩ := runs_append_iff.1 hrun
  obtain ⟨_, hstep, hback⟩ := runs_cons_iff.1 hrest
  obtain rfl := Except.ok.inj (h.run.symm.trans hfront)
  obtain rfl := Except.ok.inj (h.step.symm.trans hstep)
  exact hback

/-- Of an accepted document in which no element starts inside a choice, any part from the start
leaves the elements of the readers at work open, and catalogs around them. -/
theorem exists_outside_of_parse {document : String} {front back : List Event} {c : Catalog}
    (hparse : Catalog.parse document = .ok c) (hquiet : QuietFrom [] (Markup.events document))
    (heq : Markup.events document = front ++ back) :
    ∃ p outside, Runs p back (.top c) ∧ openElements front = p.readers ++ outside ∧
      ∀ n ∈ outside, n = "catalog" := by
  have hrun := ofEvents_eq_ok_iff.1 hparse
  rw [heq] at hrun hquiet
  obtain ⟨p, hfront, hback⟩ := runs_append_iff.1 hrun
  have hstart : [] = (Position.top none).readers ++ [] := rfl
  obtain ⟨outside, hopen, houtside⟩ :=
    exists_outside_of_quiet hfront hquiet.of_append hstart (List.forall_mem_nil _)
  exact ⟨p, outside, hback, hopen, houtside⟩

/-- In an accepted document in which no element starts inside a choice, every element outside of
choices is one that is let through there. -/
theorem mem_elementsIn_of_parse {document : String} {front back : List Event} {c : Catalog}
    (hparse : Catalog.parse document = .ok c) (hquiet : QuietFrom [] (Markup.events document))
    (heq : Markup.events document = front ++ ev :: back)
    (hev : ev = .opening e ∨ ev = .selfClosing e) :
    (openElements front).head? = some "choice" ∨
      e.name ∈ elementsIn (openElements front).head? := by
  obtain ⟨p, outside, hrun, hopen, houtside⟩ := exists_outside_of_parse hparse hquiet heq
  obtain ⟨_, hstep, -⟩ := runs_cons_iff.1 hrun
  exact mem_elementsIn_of_steps (steps_of_step hstep) hopen houtside hev

/-- A reader that a start tag calls returns at the end tag of its element if and only if no element
starts inside a choice on the way.  If the document is accepted, every reader that is called
returns, and no element starts inside a choice if and only if every start tag stands where the reader
lets its element through: at a place that the format has for it, or else as a record behind a closed
catalog or as a catalog inside a catalog.  Then all readers return at the end tags of their elements,
only catalogs are left open, and what else is not let through where it stands are empty elements in
choices. -/
theorem parse_aligned (document : String) :
    (∀ front e consumed rest p p₁ p₂, CalledAt document front e (consumed ++ rest) p p₁ →
      Returns p.readers p₁ consumed p₂ →
      (EndsElement e.name consumed ↔ QuietFrom [e.name] consumed)) ∧
    ∀ c, Catalog.parse document = .ok c →
      (∀ front e back p p₁, CalledAt document front e back p p₁ →
        ∃ consumed rest p₂, back = consumed ++ rest ∧ Returns p.readers p₁ consumed p₂) ∧
      (QuietFrom [] (Markup.events document) ↔
        ∀ front e back, Markup.events document = front ++ .opening e :: back →
          e.name ∈ elementsIn (openElements front).head?) ∧
      (QuietFrom [] (Markup.events document) →
        (∀ front e consumed rest p p₁ p₂, CalledAt document front e (consumed ++ rest) p p₁ →
          Returns p.readers p₁ consumed p₂ → EndsElement e.name consumed) ∧
        (∀ n ∈ openElements (Markup.events document), n = "catalog") ∧
        ∀ front e back, Markup.events document = front ++ .selfClosing e :: back →
          (openElements front).head? = some "choice" ∨
            e.name ∈ elementsIn (openElements front).head?) := by
  refine ⟨fun front e consumed rest p p₁ p₂ hcall hreturns =>
    hreturns.endsElement_iff hcall.called hcall.nested, fun c hparse => ⟨?_, ⟨?_, ?_⟩, ?_⟩⟩
  · intro front e back p p₁ hcall
    obtain ⟨consumed, rest, p₂, heq, hreturns, -⟩ := exists_returns (hcall.runs hparse)
      (show p₁.readers = [e.name] ++ p.readers from hcall.called) (List.cons_ne_nil _ _)
    exact ⟨consumed, rest, p₂, heq, hreturns⟩
  · intro hquiet front e back heq
    exact (mem_elementsIn_of_parse hparse hquiet heq (.inl rfl)).resolve_left
      (hquiet front e back heq)
  · intro hcontext front e back heq hchoice
    have hmem := hcontext front e back heq
    rw [openElements, hchoice] at hmem
    cases hmem
  · intro hquiet
    refine ⟨?_, ?_, fun front e back heq => mem_elementsIn_of_parse hparse hquiet heq (.inr rfl)⟩
    · intro front e consumed rest p p₁ p₂ hcall hreturns
      rw [hcall.events_eq] at hquiet
      have hinside := (quietFrom_cons_iff.1 hquiet.foldl).2
      exact hreturns.endsElement hcall.called hcall.nested hinside.of_append
    · obtain ⟨p, outside, hrun, hopen, houtside⟩ :=
        exists_outside_of_parse hparse hquiet (List.append_nil _).symm
      obtain rfl := runs_nil_iff.1 hrun
      rw [hopen]
      exact houtside

/-- A document with a choice. -/
def linkDocument : String :=
  "<catalog package='net'><record name='Link'><field name='State' type='string' attr='state'>" ++
    "<choice>up</choice></field></record></catalog>"

theorem events_linkDocument : Markup.events linkDocument =
    [.opening ⟨"catalog", [("package", "net")]⟩, .opening ⟨"record", [("name", "Link")]⟩,
     .opening ⟨"field", [("name", "State"), ("type", "string"), ("attr", "state")]⟩,
     .opening ⟨"choice", []⟩, .text "up", .closing "choice", .closing "field", .closing "record",
     .closing "catalog"] := by
  cbv

theorem parse_linkDocument : ∃ c, Catalog.parse linkDocument = .ok c ∧ c.names = ["Link"] := by
  rw [Catalog.parse, events_linkDocument]
  exact ⟨_, rfl, rfl⟩

theorem quietFrom_linkDocument : QuietFrom [] (Markup.events linkDocument) := by
  rw [events_linkDocument]
  simp [quietFrom_cons_iff, quietFrom_nil, noteOpen]

/-- Its readers all return at the end tags of their elements. -/
theorem parse_aligned_link :
    ∃ c, Catalog.parse linkDocument = .ok c ∧
      ∀ front e consumed rest p p₁ p₂, CalledAt linkDocument front e (consumed ++ rest) p p₁ →
        Returns p.readers p₁ consumed p₂ → EndsElement e.name consumed := by
  obtain ⟨c, hparse, -⟩ := parse_linkDocument
  exact ⟨c, hparse, (((parse_aligned linkDocument).2 c hparse).2.2 quietFrom_linkDocument).1⟩

/-- An element inside a choice, in a record and a catalog that are not closed. -/
def cutDocument : String :=
  "<catalog package='net'><record name='Link'><field name='State' type='string' attr='state'>" ++
    "<choice><b>up</b></choice></field>"

theorem events_cutDocument : Markup.events cutDocument =
    [.opening ⟨"catalog", [("package", "net")]⟩, .opening ⟨"record", [("name", "Link")]⟩,
     .opening ⟨"field", [("name", "State"), ("type", "string"), ("attr", "state")]⟩,
     .opening ⟨"choice", []⟩, .opening ⟨"b", []⟩, .text "up", .closing "b", .closing "choice",
     .closing "field"] := by
  cbv

/-- The document is accepted although the record and the catalog are left open and the choice holds
an element. -/
theorem parse_not_aligned :
    (∃ c, Catalog.parse cutDocument = .ok c ∧ c.names = ["Link"]) ∧
    openElements (Markup.events cutDocument) = ["record", "catalog"] ∧
    ∃ front e back, Markup.events cutDocument = front ++ .opening e :: back ∧ e.name = "b" ∧
      (openElements front).head? = some "choice" := by
  rw [Catalog.parse, events_cutDocument]
  refine ⟨⟨_, rfl, rfl⟩, rfl, ?_⟩
  exact ⟨[_, _, _, .opening ⟨"choice", []⟩], ⟨"b", []⟩, _, rfl, rfl, rfl⟩

end RecordSchema.CatalogDocument
