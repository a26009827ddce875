import Mathlib.Data.List.TakeWhile
import RecordSchema.Markup.Document

/-!
# Writing markup

Documents as trees of elements, and how they are written: values of attributes in double quotes, an
element without content as one tag, an element in another one on a line of its own.  A tree that is
written is read back as its events.
-/

namespace RecordSchema.Markup

/-- An element of a document, which holds other elements or a text. -/
inductive Node where
  | element (head : Element) (children : List Node)
  | leaf (head : Element) (content : String)

/-! ## Texts and events of trees -/

def writeAttribute (a : String × String) : List Char :=
  ' ' :: a.1.toList ++ '=' :: '"' :: a.2.toList ++ ['"']

/-- What a tag says between its brackets. -/
def Element.tagText (e : Element) : List Char :=
  e.name.toList ++ e.attributes.flatMap writeAttribute

def Element.writeOpening (e : Element) : List Char := '<' :: e.tagText ++ ['>']

def Element.writeSelfClosing (e : Element) : List Char := '<' :: e.tagText ++ ['/', '>']

def Element.writeClosing (e : Element) : List Char := '<' :: '/' :: e.name.toList ++ ['>']

mutual

def Node.write : Node → List Char
  | .element head children =>
    if children.isEmpty then head.writeSelfClosing
    else head.writeOpening ++ writeLines children ++ '\n' :: head.writeClosing
  | .leaf head content => head.writeOpening ++ content.toList ++ head.writeClosing

/-- Writes each element on a line of its own. -/
def writeLines : List Node → List Char
  | [] => []
  | n :: rest => '\n' :: n.write ++ writeLines rest

end

mutual

/-- The events of an element as it is written. -/
def Node.events : Node → List Event
  | .element head children =>
    if children.isEmpty then [.selfClosing head]
    else .opening head :: eventLines children ++ [.text "\n", .closing head.name]
  | .leaf head content => [.opening head, .text content, .closing head.name]

def eventLines : List Node → List Event
  | [] => []
  | n :: rest => .text "\n" :: n.events ++ eventLines rest

end

/-! ## What can be written -/

/-- A name of letters and digits. -/
def IsName (s : String) : Prop := s.toList ≠ [] ∧ ∀ c ∈ s.toList, c.isAlphanum = true

-- by way of `List.all`: a quantifier over characters is decided by going through all of them
instance (s : String) : Decidable (IsName s) :=
  decidable_of_iff (s.toList ≠ [] ∧ s.toList.all Char.isAlphanum = true)
    (and_congr_right fun _ => List.all_eq_true)

/-- Elements whose tags can be written: a value must not have a quote in it. -/
structure Element.Writable (e : Element) : Prop where
  name : IsName e.name
  keys : ∀ a ∈ e.attributes, IsName a.1
  nodup : (e.attributes.map Prod.fst).Nodup
  values : ∀ a ∈ e.attributes, '"' ∉ a.2.toList

/-- Texts that can be written: they are not empty, and neither markup nor references. -/
structure IsContent (s : String) : Prop where
  ne_nil : s.toList ≠ []
  chars : ∀ c ∈ s.toList, isTextChar c = true

instance (s : String) : Decidable (IsContent s) :=
  decidable_of_iff (s.toList ≠ [] ∧ s.toList.all isTextChar = true)
    ⟨fun h => ⟨h.1, List.all_eq_true.1 h.2⟩, fun h => ⟨h.ne_nil, List.all_eq_true.2 h.chars⟩⟩

/-- Trees that can be written. -/
inductive Node.Writable : Node → Prop
  | element {head : Element} {children : List Node} (tag : head.Writable)
      (inner : ∀ n ∈ children, n.Writable) : Writable (.element head children)
  | leaf {head : Element} {content : String} (tag : head.Writable) (inner : IsContent content) :
      Writable (.leaf head content)

/-! ## Characters of names -/

section NameChars

variable {c : Char} (h : c.isAlphanum = true)

include h

theorem ne_of_isAlphanum {d : Char} (hd : d.isAlphanum = false) : c ≠ d := by
  rintro rfl
  rw [h] at hd
  cases hd

theorem isSpace_of_isAlphanum : isSpace c = false := by
  simp only [isSpace, Bool.or_eq_false_iff, beq_eq_false_iff_ne]
  refine ⟨⟨⟨?_, ?_⟩, ?_⟩, ?_⟩ <;> exact ne_of_isAlphanum h (by decide)

theorem isQuote_of_isAlphanum : isQuote c = false := by
  simp only [isQuote, Bool.or_eq_false_iff, beq_eq_false_iff_ne]
  constructor <;> exact ne_of_isAlphanum h (by decide)

theorem isKeyChar_of_isAlphanum : isKeyChar c = true := by
  rw [isKeyChar, isSpace_of_isAlphanum h, bne_iff_ne.2 (ne_of_isAlphanum h (by decide))]
  rfl

end NameChars

theorem exists_cons_of_isName {name : String} (h : IsName name) :
    ∃ c cs, name.toList = c :: cs ∧ c.isAlphanum = true := by
  obtain ⟨c, cs, hchars⟩ := List.exists_cons_of_ne_nil h.1
  exact ⟨c, cs, hchars, h.2 c (hchars ▸ List.mem_cons_self)⟩

/-! ## Tags -/

/-- A text that no tag ends in. -/
def StaysInTag (s : List Char) : Prop :=
  ∀ rest, splitTag none (s ++ rest) = (splitTag none rest).map fun p => (s ++ p.1, p.2)

theorem map_map_except {α β γ ε : Type} (f : α → β) (g : β → γ) (x : Except ε α) :
    (x.map f).map g = x.map (g ∘ f) := by
  cases x <;> rfl

/-- Between quotes nothing counts but the second one. -/
theorem splitTag_quoted {s : List Char} (h : '"' ∉ s) (rest : List Char) :
    splitTag (some '"') (s ++ '"' :: rest) =
      (splitTag none rest).map fun p => (s ++ '"' :: p.1, p.2) := by
  induction s with
  | nil =>
      rw [List.nil_append, splitTag, if_pos rfl]
      rfl
  | cons c s ih =>
      rw [List.mem_cons, not_or] at h
      rw [List.cons_append, splitTag, if_neg (Ne.symm h.1), ih h.2, map_map_except]
      rfl

namespace StaysInTag

variable {s s' : List Char}

theorem nil : StaysInTag [] := by
  intro rest
  rw [List.nil_append]
  cases splitTag none rest <;> rfl

theorem append (h : StaysInTag s) (h' : StaysInTag s') : StaysInTag (s ++ s') := by
  intro rest
  rw [List.append_assoc, h, h', map_map_except]
  refine congrArg (Except.map · _) (funext fun p => ?_)
  rw [Function.comp_apply, List.append_assoc]

theorem cons {c : Char} (hend : c ≠ '>') (hquote : isQuote c = false) (h : StaysInTag s) :
    StaysInTag (c :: s) := by
  intro rest
  rw [List.cons_append, splitTag, if_neg hend, hquote, if_neg Bool.false_ne_true, h,
    map_map_except]
  rfl

theorem quoted (h : '"' ∉ s) : StaysInTag ('"' :: s ++ ['"']) := by
  intro rest
  rw [List.cons_append, List.cons_append, List.append_assoc, splitTag, if_neg (by decide),
    if_pos (by decide)]
  rw [List.singleton_append, splitTag_quoted h, map_map_except]
  refine congrArg (Except.map · _) (funext fun p => ?_)
  simp

theorem of_isName {s : String} (h : IsName s) : StaysInTag s.toList := by
  have hall := h.2
  generalize s.toList = s at hall
  induction s with
  | nil => exact nil
  | cons c s ih =>
      obtain ⟨hc, hs⟩ := List.forall_mem_cons.1 hall
      exact cons (ne_of_isAlphanum hc (by decide)) (isQuote_of_isAlphanum hc) (ih hs)

theorem writeAttribute {a : String × String} (hkey : IsName a.1) (hvalue : '"' ∉ a.2.toList) :
    StaysInTag (Markup.writeAttribute a) := by
  have heq : StaysInTag ['='] := cons (by decide) (by decide) nil
  have hparts := (of_isName hkey).append (heq.append (quoted hvalue))
  have hall : StaysInTag (' ' :: (a.1.toList ++ (['='] ++ ('"' :: a.2.toList ++ ['"'])))) :=
    cons (by decide) (by decide) hparts
  simpa [Markup.writeAttribute] using hall

theorem flatMap {α : Type} {write : α → List Char} {l : List α}
    (h : ∀ a ∈ l, StaysInTag (write a)) : StaysInTag (l.flatMap write) := by
  induction l with
  | nil => exact nil
  | cons a l ih =>
      obtain ⟨ha, hl⟩ := List.forall_mem_cons.1 h
      rw [List.flatMap_cons]
      exact ha.append (ih hl)

theorem tagText {e : Element} (h : e.Writable) : StaysInTag e.tagText :=
  (of_isName h.name).append (flatMap fun a ha => writeAttribute (h.keys a ha) (h.values a ha))

/-- A tag ends at its bracket. -/
theorem splitTag_eq (h : StaysInTag s) (rest : List Char) :
    splitTag none (s ++ '>' :: rest) = .ok (s, rest) := by
  rw [h, splitTag, if_pos rfl, Except.map, List.append_nil]

end StaysInTag

/-! ## Attributes -/

section Runs

variable {s rest : List Char} {p : Char → Bool} {d : Char} (h : ∀ c ∈ s, p c = true)
  (hd : p d = false)

include h hd

theorem takeWhile_of_forall : (s ++ d :: rest).takeWhile p = s := by
  rw [List.takeWhile_append_of_pos h, List.takeWhile_cons_of_neg (by simp [hd]), List.append_nil]

theorem dropWhile_of_forall : (s ++ d :: rest).dropWhile p = d :: rest := by
  rw [List.dropWhile_append_of_pos h, List.dropWhile_cons_of_neg (by simp [hd])]

end Runs

/-- One attribute of a tag: a key, its quoted value and what is left. -/
theorem attributesAfter_eq_cons {seen : List (List Char)} {s rest r v after : List Char}
    {c q : Char} (hkey : s.dropWhile isSpace = c :: rest)
    (hequals : (rest.dropWhile isKeyChar).dropWhile isSpace = '=' :: r)
    (hseen : c :: rest.takeWhile isKeyChar ∉ seen) (hvalue : r.dropWhile isSpace = q :: v)
    (hquote : isQuote q = true) (hend : v.dropWhile (· != q) = q :: after) :
    attributesAfter seen s =
      (String.ofList (c :: rest.takeWhile isKeyChar), String.ofList (v.takeWhile (· != q))) ::
        attributesAfter ((c :: rest.takeWhile isKeyChar) :: seen) after := by
  rw [attributesAfter, hkey]
  simp only
  rw [hequals]
  simp only
  rw [if_neg hseen, hvalue]
  simp only
  rw [if_pos hquote, hend]

theorem writeAttribute_append (a : String × String) (rest : List Char) :
    writeAttribute a ++ rest =
      ' ' :: (a.1.toList ++ '=' :: '"' :: (a.2.toList ++ '"' :: rest)) := by
  simp [writeAttribute]

/-- An attribute is read back, unless its key occurred before. -/
theorem attributesAfter_writeAttribute {seen : List (List Char)} {a : String × String}
    (hname : IsName a.1) (hvalue : '"' ∉ a.2.toList) (hseen : a.1.toList ∉ seen)
    (rest : List Char) :
    attributesAfter seen (writeAttribute a ++ rest) =
      a :: attributesAfter (a.1.toList :: seen) rest := by
  obtain ⟨c, cs, hchars, hc⟩ := exists_cons_of_isName hname
  have hkeyChars : ∀ d ∈ cs, isKeyChar d = true := fun d hd =>
    isKeyChar_of_isAlphanum (hname.2 d (hchars ▸ List.mem_cons_of_mem c hd))
  have hvalueChars : ∀ d ∈ a.2.toList, (d != '"') = true := fun d hd =>
    bne_iff_ne.2 fun heq => hvalue (heq ▸ hd)
  have hkey : (writeAttribute a ++ rest).dropWhile isSpace =
      c :: (cs ++ '=' :: '"' :: (a.2.toList ++ '"' :: rest)) := by
    rw [writeAttribute_append, hchars, List.dropWhile_cons_of_pos (by decide), List.cons_append,
      List.dropWhile_cons_of_neg (by simp [isSpace_of_isAlphanum hc])]
  have hequals : ((cs ++ '=' :: '"' :: (a.2.toList ++ '"' :: rest)).dropWhile
      isKeyChar).dropWhile isSpace = '=' :: '"' :: (a.2.toList ++ '"' :: rest) := by
    rw [dropWhile_of_forall hkeyChars (by decide), List.dropWhile_cons_of_neg (by decide)]
  have htake : (cs ++ '=' :: '"' :: (a.2.toList ++ '"' :: rest)).takeWhile isKeyChar = cs :=
    takeWhile_of_forall hkeyChars (by decide)
  rw [hchars, ← htake] at hseen
  have hread := attributesAfter_eq_cons hkey hequals hseen
    (List.dropWhile_cons_of_neg (by decide)) (by decide)
    (dropWhile_of_forall hvalueChars (by decide))
  rw [hread, htake, takeWhile_of_forall hvalueChars (by decide), ← hchars, String.ofList_toList,
    String.ofList_toList]

theorem attributesAfter_flatMap {seen : List (List Char)} {attributes : List (String × String)}
    (hkeys : ∀ a ∈ attributes, IsName a.1) (hnodup : (attributes.map Prod.fst).Nodup)
    (hvalues : ∀ a ∈ attributes, '"' ∉ a.2.toList)
    (hseen : ∀ a ∈ attributes, a.1.toList ∉ seen) :
    attributesAfter seen (attributes.flatMap writeAttribute) = attributes := by
  induction attributes generalizing seen with
  | nil =>
      rw [List.flatMap_nil, attributesAfter]
      rfl
  | cons a rest ih =>
      obtain ⟨hkey, hkeys⟩ := List.forall_mem_cons.1 hkeys
      obtain ⟨hvalue, hvalues⟩ := List.forall_mem_cons.1 hvalues
      obtain ⟨hnew, hseen⟩ := List.forall_mem_cons.1 hseen
      rw [List.map_cons, List.nodup_cons] at hnodup
      rw [List.flatMap_cons, attributesAfter_writeAttribute hkey hvalue hnew,
        ih hkeys hnodup.2 hvalues fun b hb => ?_]
      rw [List.mem_cons, not_or]
      refine ⟨fun heq => hnodup.1 ?_, hseen b hb⟩
      exact List.mem_map.2 ⟨b, hb, String.toList_injective heq⟩

/-- A tag is read back as its element. -/
theorem ofTag_tagText {e : Element} (h : e.Writable) : Element.ofTag e.tagText = e := by
  have hname : ∀ c ∈ e.name.toList, (!isSpace c) = true := fun c hc => by
    rw [isSpace_of_isAlphanum (h.name.2 c hc), Bool.not_false]
  -- the name ends where the first attribute starts with a blank, or with the tag
  have hsplit : e.tagText.takeWhile (!isSpace ·) = e.name.toList ∧
      e.tagText.dropWhile (!isSpace ·) = e.attributes.flatMap writeAttribute := by
    rw [Element.tagText]
    cases e.attributes with
    | nil =>
        rw [List.flatMap_nil, List.append_nil]
        exact ⟨List.takeWhile_eq_self_iff.2 hname, List.dropWhile_eq_nil_iff.2 hname⟩
    | cons a rest =>
        rw [List.flatMap_cons, writeAttribute_append]
        exact ⟨takeWhile_of_forall hname (by decide), dropWhile_of_forall hname (by decide)⟩
  have hread : attributesAfter [] (e.attributes.flatMap writeAttribute) = e.attributes :=
    attributesAfter_flatMap h.keys h.nodup h.values fun _ _ => List.not_mem_nil
  rw [Element.ofTag, hsplit.1, hsplit.2, hread, String.ofList_toList]

/-! ## Pieces of markup -/

/-- A tag does not end in a slash. -/
theorem getLast?_tagText_ne {e : Element} (h : e.Writable) : e.tagText.getLast? ≠ some '/' := by
  intro hlast
  rw [Element.tagText] at hlast
  rcases List.eq_nil_or_concat e.attributes with hnil | ⟨front, a, hconcat⟩
  · rw [hnil, List.flatMap_nil, List.append_nil] at hlast
    have hslash := h.name.2 '/' (List.mem_of_getLast? hlast)
    revert hslash
    decide
  · rw [hconcat, List.concat_eq_append, List.flatMap_append, List.flatMap_singleton,
      writeAttribute, ← List.append_assoc, ← List.append_assoc, List.getLast?_concat] at hlast
    cases hlast

/-- What stands between the brackets of a tag for an element. -/
theorem scanMarkup_of_staysInTag {e : Element} (h : e.Writable) {s : List Char}
    (hstays : StaysInTag (e.tagText ++ s)) (rest : List Char) :
    scanMarkup (e.tagText ++ s ++ '>' :: rest) = .ok (openingEvent (e.tagText ++ s), rest) := by
  obtain ⟨c, cs, hchars, hc⟩ := exists_cons_of_isName h.name
  have htag := hstays.splitTag_eq rest
  have hstart : e.tagText ++ s ++ '>' :: rest =
      c :: (cs ++ e.attributes.flatMap writeAttribute ++ s ++ '>' :: rest) := by
    rw [Element.tagText, hchars]
    rfl
  rw [hstart] at htag ⊢
  rw [scanMarkup, htag]
  · rfl
  -- a name does not start like a declaration, an instruction or an end tag
  all_goals exact fun _ heq => ne_of_isAlphanum hc (by decide) (List.cons.inj heq).1

theorem scanMarkup_opening {e : Element} (h : e.Writable) (rest : List Char) :
    scanMarkup (e.tagText ++ '>' :: rest) = .ok (.opening e, rest) := by
  have hscan := scanMarkup_of_staysInTag h (s := []) (StaysInTag.tagText h |>.append .nil) rest
  rw [List.append_nil, openingEvent, if_neg (getLast?_tagText_ne h), ofTag_tagText h] at hscan
  exact hscan

theorem scanMarkup_selfClosing {e : Element} (h : e.Writable) (rest : List Char) :
    scanMarkup (e.tagText ++ '/' :: '>' :: rest) = .ok (.selfClosing e, rest) := by
  have hslash : StaysInTag ['/'] := .cons (by decide) (by decide) .nil
  have hscan := scanMarkup_of_staysInTag h ((StaysInTag.tagText h).append hslash) rest
  rw [openingEvent, if_pos (List.getLast?_concat ..), List.dropLast_concat, ofTag_tagText h,
    List.append_assoc] at hscan
  exact hscan

/-- A name has no blanks behind it. -/
theorem closingName_toList {name : String} (h : IsName name) : closingName name.toList = name := by
  obtain ⟨front, c, hchars⟩ := List.eq_nil_or_concat name.toList |>.resolve_left h.1
  have hc : isSpace c = false := isSpace_of_isAlphanum (h.2 c (by simp [hchars]))
  have hkeep : name.toList.reverse.dropWhile isSpace = c :: front.reverse := by
    rw [hchars, List.concat_eq_append, List.reverse_concat,
      List.dropWhile_cons_of_neg (by simp [hc])]
  rw [closingName, hkeep]
  simp only
  rw [← List.reverse_concat, ← List.concat_eq_append, ← hchars, List.reverse_reverse,
    String.ofList_toList]

theorem scanMarkup_closing {name : String} (h : IsName name) (rest : List Char) :
    scanMarkup ('/' :: name.toList ++ '>' :: rest) = .ok (.closing name, rest) := by
  rw [List.cons_append, scanMarkup, (StaysInTag.of_isName h).splitTag_eq rest, Except.map,
    closingName_toList h]

/-! ## Documents -/

section Within

variable {opened : List String} {s after : List Char} {c : Char} {e : Element}

theorem eventsWithin_opening (h : scanEvent c s = .ok (.opening e, after)) :
    eventsWithin opened (c :: s) = .opening e :: eventsWithin (e.name :: opened) after := by
  rw [eventsWithin, h]

theorem eventsWithin_closing {name : String} (h : scanEvent c s = .ok (.closing name, after)) :
    eventsWithin (name :: opened) (c :: s) = .closing name :: eventsWithin opened after := by
  rw [eventsWithin, h]
  exact if_pos rfl

theorem eventsWithin_selfClosing (h : scanEvent c s = .ok (.selfClosing e, after)) :
    eventsWithin opened (c :: s) = .selfClosing e :: eventsWithin opened after := by
  rw [eventsWithin, h]

theorem eventsWithin_text {content : String} (h : scanEvent c s = .ok (.text content, after)) :
    eventsWithin opened (c :: s) = .text content :: eventsWithin opened after := by
  rw [eventsWithin, h]

variable (opened)

theorem eventsWithin_writeOpening (h : e.Writable) (rest : List Char) :
    eventsWithin opened (e.writeOpening ++ rest) =
      .opening e :: eventsWithin (e.name :: opened) rest := by
  have hscan : scanEvent '<' (e.tagText ++ '>' :: rest) = .ok (.opening e, rest) := by
    rw [scanEvent, if_pos rfl, scanMarkup_opening h]
  rw [Element.writeOpening, List.cons_append, List.cons_append, List.append_assoc]
  exact eventsWithin_opening hscan

theorem eventsWithin_writeSelfClosing (h : e.Writable) (rest : List Char) :
    eventsWithin opened (e.writeSelfClosing ++ rest) =
      .selfClosing e :: eventsWithin opened rest := by
  have hscan : scanEvent '<' (e.tagText ++ '/' :: '>' :: rest) = .ok (.selfClosing e, rest) := by
    rw [scanEvent, if_pos rfl, scanMarkup_selfClosing h]
  rw [Element.writeSelfClosing, List.cons_append, List.cons_append, List.append_assoc]
  exact eventsWithin_selfClosing hscan

theorem eventsWithin_writeClosing (h : e.Writable) (rest : List Char) :
    eventsWithin (e.name :: opened) (e.writeClosing ++ rest) =
      .closing e.name :: eventsWithin opened rest := by
  have hscan : scanEvent '<' ('/' :: e.name.toList ++ '>' :: rest) =
      .ok (.closing e.name, rest) := by
    rw [scanEvent, if_pos rfl, scanMarkup_closing h.name]
  rw [Element.writeClosing, List.cons_append, List.cons_append, List.append_assoc]
  exact eventsWithin_closing hscan

/-- A text ends at the next tag. -/
theorem eventsWithin_content {content : String} (h : IsContent content) (rest : List Char) :
    eventsWithin opened (content.toList ++ '<' :: rest) =
      .text content :: eventsWithin opened ('<' :: rest) := by
  obtain ⟨c, cs, hchars⟩ := List.exists_cons_of_ne_nil h.ne_nil
  have hall := h.chars
  rw [hchars] at hall
  obtain ⟨hc, hcs⟩ := List.forall_mem_cons.1 hall
  have hscan : scanEvent c (cs ++ '<' :: rest) = .ok (.text content, '<' :: rest) := by
    rw [isTextChar, Bool.and_eq_true, bne_iff_ne, bne_iff_ne] at hc
    rw [scanEvent, if_neg hc.1, if_neg hc.2, takeWhile_of_forall hcs (by decide),
      dropWhile_of_forall hcs (by decide), ← hchars, String.ofList_toList]
  rw [hchars, List.cons_append]
  exact eventsWithin_text hscan

/-- A text is read back together with the end tag behind it. -/
theorem eventsWithin_content_writeClosing {content : String} (hcontent : IsContent content)
    (h : e.Writable) (rest : List Char) :
    eventsWithin (e.name :: opened) (content.toList ++ e.writeClosing ++ rest) =
      .text content :: .closing e.name :: eventsWithin opened rest := by
  have hclosing := eventsWithin_writeClosing opened h rest
  have htext := eventsWithin_content (e.name :: opened) hcontent
    ('/' :: e.name.toList ++ ['>'] ++ rest)
  rw [← hclosing, List.append_assoc]
  exact htext

end Within

theorem isContent_newline : IsContent "\n" := by decide

theorem Node.exists_write_eq (n : Node) : ∃ s, n.write = '<' :: s := by
  cases n with
  | element head children =>
      rw [write]
      split
      · exact ⟨_, rfl⟩
      · exact ⟨_, rfl⟩
  | leaf head content =>
      rw [write]
      exact ⟨_, rfl⟩

/-- Elements on lines of their own are read back if each of them is. -/
theorem eventsWithin_writeLines {opened : List String} {children : List Node}
    (h : ∀ n ∈ children, ∀ rest,
      eventsWithin opened (n.write ++ rest) = n.events ++ eventsWithin opened rest)
    (rest : List Char) :
    eventsWithin opened (writeLines children ++ rest) =
      eventLines children ++ eventsWithin opened rest := by
  induction children with
  | nil => rw [writeLines, eventLines, List.nil_append, List.nil_append]
  | cons n children ih =>
      obtain ⟨hn, hchildren⟩ := List.forall_mem_cons.1 h
      obtain ⟨s, hs⟩ := n.exists_write_eq
      have hnewline := eventsWithin_content opened isContent_newline
        (s ++ (writeLines children ++ rest))
      rw [← List.cons_append, ← hs, hn, ih hchildren] at hnewline
      rw [writeLines, eventLines, List.cons_append, List.cons_append, List.append_assoc,
        List.append_assoc]
      exact hnewline

/-- What is written is read back, wherever it stands. -/
theorem Node.Writable.eventsWithin_write {n : Node} (h : n.Writable) (opened : List String)
    (rest : List Char) :
    eventsWithin opened (n.write ++ rest) = n.events ++ eventsWithin opened rest := by
  induction h generalizing opened rest with
  | @element head children tag _ ih =>
      rw [Node.write, Node.events]
      split
      · rw [eventsWithin_writeSelfClosing _ tag]
        rfl
      · have hlast := eventsWithin_content_writeClosing opened isContent_newline tag rest
        rw [List.append_assoc, List.append_assoc, eventsWithin_writeOpening _ tag,
          eventsWithin_writeLines fun n hn => ih n hn (head.name :: opened)]
        rw [List.cons_append, List.append_assoc]
        exact congrArg (fun events => .opening head :: (eventLines children ++ events)) hlast
  | @leaf head content tag inner =>
      rw [Node.write, Node.events, List.append_assoc, List.append_assoc,
        eventsWithin_writeOpening _ tag, ← List.append_assoc,
        eventsWithin_content_writeClosing _ inner tag]
      rfl

/-- A document that holds a tree has the events of the tree. -/
theorem Node.Writable.events_write {n : Node} (h : n.Writable) :
    Markup.events (String.ofList n.write) = n.events := by
  obtain ⟨s, hs⟩ := n.exists_write_eq
  have hread := h.eventsWithin_write [] []
  rw [List.append_nil, eventsWithin, List.append_nil] at hread
  rw [Markup.events, String.toList_ofList, hs]
  rw [hs] at hread
  exact hread

end RecordSchema.Markup
