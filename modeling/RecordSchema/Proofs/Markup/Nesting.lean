import RecordSchema.Markup.Document

/-!
# Nesting

The elements that are open between two events of a document, innermost first.  In the events of a
document every end tag names the innermost open element, and a fault stands at the end.
-/

namespace RecordSchema.Markup

variable {opened : List String} {rest : List Event} {ev : Event}

/-- An event that neither opens nor closes an element. -/
def Event.isFlat : Event → Bool
  | opening _ | closing _ | fault _ => false
  | _ => true

/-- The open elements after an event. -/
def noteOpen (opened : List String) : Event → List String
  | .opening e => e.name :: opened
  | .closing _ => opened.tail
  | _ => opened

/-- The open elements after some events that are read from the start of a document. -/
def openElements (events : List Event) : List String := events.foldl noteOpen []

theorem noteOpen_of_isFlat (h : ev.isFlat = true) (opened : List String) :
    noteOpen opened ev = opened := by
  cases ev <;> first | rfl | cases h

/-- What is open outside does not matter as long as there is something open inside. -/
theorem noteOpen_append (h : opened ≠ []) (outside : List String) (ev : Event) :
    noteOpen (opened ++ outside) ev = noteOpen opened ev ++ outside := by
  cases ev with
  | closing name => exact List.tail_append_of_ne_nil h
  | _ => rfl

/-- Of two lists of open elements the longer one stays the longer one. -/
theorem length_noteOpen_lt {inner : List String} (hinner : inner ≠ [])
    (hlt : inner.length < opened.length) (ev : Event) :
    (noteOpen inner ev).length < (noteOpen opened ev).length := by
  have hpos := List.length_pos_iff.2 hinner
  cases ev with
  | opening e => exact Nat.succ_lt_succ hlt
  | closing name =>
      rw [noteOpen, noteOpen, List.length_tail, List.length_tail]
      omega
  | _ => exact hlt

theorem ne_nil_of_getLast? {name : String} (h : opened.getLast? = some name) : opened ≠ [] := by
  rintro rfl
  cases h

/-- What closes the last open element is an end tag. -/
theorem eq_closing_of_noteOpen_eq_nil (h : opened ≠ []) (hempty : noteOpen opened ev = []) :
    ∃ name, ev = .closing name := by
  cases ev with
  | closing name => exact ⟨name, rfl⟩
  | opening e => cases hempty
  | _ => exact absurd hempty h

/-- The outermost open element stays the same as long as there is one. -/
theorem getLast?_noteOpen (h : opened ≠ []) (h' : noteOpen opened ev ≠ []) :
    (noteOpen opened ev).getLast? = opened.getLast? := by
  cases ev with
  | opening e => exact List.getLast?_cons_of_ne_nil h
  | closing name =>
      cases opened with
      | nil => exact absurd rfl h
      | cons first outside => exact (List.getLast?_cons_of_ne_nil h').symm
  | _ => rfl

/-- Events that can be read inside the open elements `opened`. -/
inductive Nested : List String → List Event → Prop
  | nil {opened : List String} : Nested opened []
  | fault {opened : List String} {fault : Fault} : Nested opened [.fault fault]
  | opening {opened : List String} {e : Element} {rest : List Event}
      (tail : Nested (e.name :: opened) rest) : Nested opened (.opening e :: rest)
  | closing {opened : List String} {name : String} {rest : List Event}
      (tail : Nested opened rest) : Nested (name :: opened) (.closing name :: rest)
  | flat {opened : List String} {ev : Event} {rest : List Event} (flat : ev.isFlat = true)
      (tail : Nested opened rest) : Nested opened (ev :: rest)

namespace Nested

theorem tail (h : Nested opened (ev :: rest)) : Nested (noteOpen opened ev) rest := by
  cases h with
  | fault => exact .nil
  | opening tail => exact tail
  | closing tail => exact tail
  | flat flat tail => rwa [noteOpen_of_isFlat flat]

/-- An end tag names the innermost open element. -/
theorem eq_cons_of_closing {name : String} (h : Nested opened (.closing name :: rest)) :
    ∃ outside, opened = name :: outside := by
  cases h with
  | closing _ => exact ⟨_, rfl⟩
  | flat flat _ => cases flat

/-- The end tag of the only element that is open inside names it. -/
theorem eq_of_closing {outside : List String} {name last : String}
    (h : Nested (opened ++ outside) (.closing name :: rest)) (hopened : opened ≠ [])
    (hempty : noteOpen opened (.closing name) = []) (hlast : opened.getLast? = some last) :
    name = last := by
  obtain ⟨_, heq⟩ := h.eq_cons_of_closing
  cases opened with
  | nil => exact absurd rfl hopened
  | cons first inside =>
      obtain rfl : inside = [] := hempty
      cases heq
      exact Option.some.inj hlast

theorem foldl {read : List Event} (h : Nested opened (read ++ rest)) :
    Nested (read.foldl noteOpen opened) rest := by
  induction read generalizing opened with
  | nil => exact h
  | cons ev read ih => exact ih h.tail

end Nested

/-! ## Events of a document -/

theorem events_of_head?_ne {d : String} (h : d.toList.head? ≠ some '\ufeff') :
    events d = eventsWithin [] d.toList := by
  rw [events]
  split
  · rename_i hmark
    rw [hmark] at h
    exact absurd rfl h
  · rfl

theorem eventsWithin_flat {ch : Char} {s after : List Char} (hflat : ev.isFlat = true)
    (h : scanEvent ch s = .ok (ev, after)) :
    eventsWithin opened (ch :: s) = ev :: eventsWithin opened after := by
  rw [eventsWithin, h]
  cases ev <;> first | rfl | cases hflat

def Event.isFault : Event → Bool
  | fault _ => true
  | _ => false

theorem isFault_openingEvent (body : List Char) : (openingEvent body).isFault = false := by
  rw [openingEvent]
  split <;> rfl

/-- What is scanned after `<!` is no fault. -/
theorem isFault_scanDeclaration {s after : List Char}
    (h : scanDeclaration s = .ok (ev, after)) : ev.isFault = false := by
  unfold scanDeclaration at h
  repeat' split at h
  all_goals cases h
  all_goals rfl

theorem isFault_scanMarkup {s after : List Char} (h : scanMarkup s = .ok (ev, after)) :
    ev.isFault = false := by
  have htag (t : List Char) (f : List Char → Event) (hf : ∀ body, (f body).isFault = false)
      (ht : (splitTag none t).map (fun p => (f p.1, p.2)) = .ok (ev, after)) :
      ev.isFault = false := by
    cases hs : splitTag none t with
    | error e => simp [hs, Except.map] at ht
    | ok p =>
        simp only [hs, Except.map, Except.ok.injEq, Prod.mk.injEq] at ht
        rw [← ht.1]
        exact hf p.1
  unfold scanMarkup at h
  split at h
  · exact isFault_scanDeclaration h
  · unfold scanInstruction at h
    repeat' split at h
    all_goals cases h
    rfl
  · exact htag _ (fun body => .closing (closingName body)) (fun _ => rfl) h
  · exact htag _ _ isFault_openingEvent h

/-- An event that is scanned is no fault; faults come in its place. -/
theorem isFault_scanEvent {c : Char} {s after : List Char}
    (h : scanEvent c s = .ok (ev, after)) : ev.isFault = false := by
  unfold scanEvent at h
  split at h
  · exact isFault_scanMarkup h
  · split at h
    · unfold scanReference at h
      simp only at h
      split at h <;> cases h
      rfl
    · cases h
      rfl

/-- Inside any elements a text is read into nested events. -/
theorem nested_eventsWithin (opened : List String) (s : List Char) :
    Nested opened (eventsWithin opened s) := by
  fun_induction eventsWithin opened s with
  | case1 => exact .nil
  | case2 => exact .fault
  | case3 _ _ _ _ _ _ ih => exact .opening ih
  | case4 => exact .fault
  | case5 _ _ _ _ _ _ ih => exact .closing ih
  | case6 => exact .fault
  | case7 _ _ _ event _ hopening hclosing hscan ih =>
      refine .flat ?_ ih
      have hfault := isFault_scanEvent hscan
      cases event with
      | opening e => exact absurd rfl (hopening e)
      | closing name => exact absurd rfl (hclosing name)
      | fault => cases hfault
      | _ => rfl

/-- The events of a document are nested. -/
theorem nested_events (document : String) : Nested [] (events document) := by
  rw [events]
  split <;> exact nested_eventsWithin ..

end RecordSchema.Markup
