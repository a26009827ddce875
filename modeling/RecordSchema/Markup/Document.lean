import RecordSchema.Markup.Attribute

/-!
# Markup documents

The events of a document's text.  Every end tag must name the innermost open element; elements left
open at the end are no fault of the markup.
-/

namespace RecordSchema.Markup

/-- Splits a text at the first occurrence of `stop` into what stands before it and after it. -/
def splitAfter (stop : List Char) : List Char → Option (List Char × List Char)
  | [] => none
  | c :: rest =>
    if stop.isPrefixOf (c :: rest) then some ([], (c :: rest).drop stop.length)
    else (splitAfter stop rest).map fun p => (c :: p.1, p.2)

theorem splitAfter_length {stop s before after : List Char}
    (h : splitAfter stop s = some (before, after)) : after.length ≤ s.length := by
  induction s generalizing before with
  | nil => simp [splitAfter] at h
  | cons c rest ih =>
    rw [splitAfter] at h
    split at h
    · simp only [Option.some.injEq, Prod.mk.injEq] at h
      rw [← h.2, List.length_drop]
      omega
    · obtain ⟨p, hp, heq⟩ := Option.map_eq_some_iff.1 h
      obtain ⟨-, rfl⟩ := Prod.mk.inj heq
      have := ih hp
      simp only [List.length_cons]
      omega

/-- Splits a tag's text from what follows its `>`; a `>` between quotes does not end a tag. -/
def splitTag : Option Char → List Char → Except Fault (List Char × List Char)
  | none, [] => .error .unclosedTag
  | some q, [] => .error (.unclosedQuote q)
  | none, c :: rest =>
    if c = '>' then .ok ([], rest)
    else
      (splitTag (if isQuote c then some c else none) rest).map fun p => (c :: p.1, p.2)
  | some q, c :: rest =>
    (splitTag (if c = q then none else some q) rest).map fun p => (c :: p.1, p.2)

theorem splitTag_length {quote : Option Char} {s body rest : List Char}
    (h : splitTag quote s = .ok (body, rest)) : rest.length ≤ s.length := by
  induction s generalizing quote body with
  | nil => cases quote <;> simp [splitTag] at h
  | cons c s ih =>
    have step : ∀ q, (splitTag q s).map (fun p => (c :: p.1, p.2)) = .ok (body, rest) →
        rest.length ≤ (c :: s).length := by
      intro q hq
      cases hs : splitTag q s with
      | error e => simp [hs, Except.map] at hq
      | ok p =>
        simp only [hs, Except.map, Except.ok.injEq, Prod.mk.injEq] at hq
        obtain ⟨-, rfl⟩ := hq
        have := ih hs
        simp only [List.length_cons]
        omega
    cases quote with
    | none =>
      rw [splitTag] at h
      split at h
      · simp only [Except.ok.injEq, Prod.mk.injEq] at h
        simp [← h.2]
      · exact step _ h
    | some q => exact step _ h

/-! ## Document types -/

/-- Where a character of a document type declaration stands. -/
inductive DoctypePlace where
  /-- Before the internal subset, perhaps in quotes. -/
  | head (quote : Option Char)
  | subset
  /-- In a comment or instruction of the subset, which `stop` ends after `delay` characters. -/
  | skip (delay : Nat) (stop : List Char)
  /-- In a declaration of the subset, perhaps in quotes. -/
  | declaration (quoted : Bool) (quote : Option Char)
  /-- After the internal subset. -/
  | tail

/-- Where the character after a `<` of the subset stands. -/
def DoctypePlace.ofSubset (s : List Char) : DoctypePlace :=
  if "!--".toList.isPrefixOf s then .skip 3 "-->".toList
  else if "?".toList.isPrefixOf s then .skip 1 "?>".toList
  else
    .declaration (["!ENTITY", "!ATTLIST", "!NOTATION"].any fun d => d.toList.isPrefixOf s) none

/-- Where the character after `c` stands, `rest` being the text after `c`. -/
def DoctypePlace.after (c : Char) (rest : List Char) : DoctypePlace → DoctypePlace
  | head none => if c = '[' then subset else head (if isQuote c then some c else none)
  | head (some q) => head (if c = q then none else some q)
  | subset => if c = ']' then tail else if c = '<' then ofSubset rest else subset
  | skip (delay + 1) stop => skip delay stop
  | skip 0 stop => if stop.isPrefixOf (c :: rest) then subset else skip 0 stop
  | declaration quoted none =>
    if c = '>' then subset else declaration quoted (if quoted && isQuote c then some c else none)
  | declaration quoted (some q) => declaration quoted (if c = q then none else some q)
  | tail => tail

/-- Whether a `>` ends the declaration. -/
def DoctypePlace.isOutside : DoctypePlace → Bool
  | head none | tail => true
  | _ => false

/-- Splits a document type declaration from what follows its `>`. -/
def splitDoctype (place : DoctypePlace) : List Char → Option (List Char × List Char)
  | [] => none
  | c :: rest =>
    if c = '>' && place.isOutside then some ([], rest)
    else (splitDoctype (place.after c rest) rest).map fun p => (c :: p.1, p.2)

theorem splitDoctype_length {place : DoctypePlace} {s body rest : List Char}
    (h : splitDoctype place s = some (body, rest)) : rest.length ≤ s.length := by
  induction s generalizing place body with
  | nil => simp [splitDoctype] at h
  | cons c s ih =>
    rw [splitDoctype] at h
    split at h
    · simp only [Option.some.injEq, Prod.mk.injEq] at h
      simp [← h.2]
    · obtain ⟨p, hp, heq⟩ := Option.map_eq_some_iff.1 h
      obtain ⟨-, rfl⟩ := Prod.mk.inj heq
      have := ih hp
      simp only [List.length_cons]
      omega

/-! ## One piece of markup -/

/-- The name in an end tag: blanks after it do not count, unless there is nothing else. -/
def closingName (body : List Char) : String :=
  match body.reverse.dropWhile isSpace with
  | [] => .ofList body
  | name => .ofList name.reverse

/-- The event of a start tag or self-closing tag. -/
def openingEvent (body : List Char) : Event :=
  if body.getLast? = some '/' then .selfClosing (.ofTag body.dropLast)
  else .opening (.ofTag body)

/-- Reads what follows `<!`. -/
def scanDeclaration (s : List Char) : Except Fault (Event × List Char) :=
  match s with
  | '[' :: _ =>
    if "[CDATA[".toList.isPrefixOf s then
      match splitAfter "]]>".toList (s.drop 7) with
      | some (content, rest) => .ok (.cdata (String.ofList content), rest)
      | none => .error .unclosedCData
    else .error .unclosedCData
  | '-' :: _ =>
    if "--".toList.isPrefixOf s then
      match splitAfter "-->".toList (s.drop 2) with
      | some (content, rest) => .ok (.comment (String.ofList content), rest)
      | none => .error .unclosedComment
    else .error .unclosedComment
  | 'D' :: _ | 'd' :: _ =>
    if (s.take 7).map Char.toUpper = "DOCTYPE".toList then
      match splitDoctype (.head none) (s.drop 7) with
      | some (content, rest) =>
        if content.all isSpace then .error .namelessDoctype
        else .ok (.doctype (String.ofList content), rest)
      | none => .error .unclosedDoctype
    else .error .unclosedDoctype
  | _ => .error .unknownMarkup

/-- Whether an instruction without an end is an XML declaration. -/
def isXmlDeclaration (s : List Char) : Bool :=
  "?xml".toList.isPrefixOf s && (s.drop 4).head?.all fun c => isSpace c || c == '?'

/-- Reads an instruction from its first `?` on, which may also be the one that ends it. -/
def scanInstruction (s : List Char) : Except Fault (Event × List Char) :=
  match splitAfter "?>".toList s with
  | some ([], _) => .error .unclosedInstruction
  | some (_ :: content, rest) => .ok (.instruction (String.ofList content), rest)
  | none => .error (if isXmlDeclaration s then .unclosedDeclaration else .unclosedInstruction)

/-- Reads what follows a `<`. -/
def scanMarkup (s : List Char) : Except Fault (Event × List Char) :=
  match s with
  | '!' :: rest => scanDeclaration rest
  | '?' :: _ => scanInstruction s
  | '/' :: rest =>
    (splitTag none rest).map fun p => (.closing (closingName p.1), p.2)
  | _ => (splitTag none s).map fun p => (openingEvent p.1, p.2)

/-- Reads what follows a `&`. -/
def scanReference (s : List Char) : Except Fault (Event × List Char) :=
  let isName (c : Char) : Bool := c != ';' && c != '&' && c != '<'
  match s.dropWhile isName with
  | ';' :: rest => .ok (.reference (String.ofList (s.takeWhile isName)), rest)
  | _ => .error .unclosedReference

def isTextChar (c : Char) : Bool := c != '<' && c != '&'

/-- Reads the first event of a text that starts with `c`. -/
def scanEvent (c : Char) (rest : List Char) : Except Fault (Event × List Char) :=
  if c = '<' then scanMarkup rest
  else if c = '&' then scanReference rest
  else .ok (.text (String.ofList (c :: rest.takeWhile isTextChar)), rest.dropWhile isTextChar)

theorem scanDeclaration_length {s : List Char} {e : Event} {rest : List Char}
    (h : scanDeclaration s = .ok (e, rest)) : rest.length ≤ s.length := by
  have drop : ∀ n, (s.drop n).length ≤ s.length := fun n => by
    rw [List.length_drop]
    omega
  unfold scanDeclaration at h
  repeat' split at h
  all_goals first | contradiction | skip
  all_goals
    simp only [Except.ok.injEq, Prod.mk.injEq] at h
    obtain ⟨-, rfl⟩ := h
  · exact Nat.le_trans (splitAfter_length ‹_›) (drop 7)
  · exact Nat.le_trans (splitAfter_length ‹_›) (drop 2)
  · exact Nat.le_trans (splitDoctype_length ‹_›) (drop 7)
  · exact Nat.le_trans (splitDoctype_length ‹_›) (drop 7)

theorem scanMarkup_length {s : List Char} {e : Event} {rest : List Char}
    (h : scanMarkup s = .ok (e, rest)) : rest.length ≤ s.length := by
  have tag : ∀ (t : List Char) (f : List Char → Event),
      (splitTag none t).map (fun p => (f p.1, p.2)) = .ok (e, rest) → rest.length ≤ t.length := by
    intro t f ht
    cases hs : splitTag none t with
    | error e => simp [hs, Except.map] at ht
    | ok p =>
      simp only [hs, Except.map, Except.ok.injEq, Prod.mk.injEq] at ht
      obtain ⟨-, rfl⟩ := ht
      exact splitTag_length hs
  unfold scanMarkup at h
  split at h
  · have := scanDeclaration_length h
    simp only [List.length_cons]
    omega
  · unfold scanInstruction at h
    split at h
    · contradiction
    · next hs =>
      simp only [Except.ok.injEq, Prod.mk.injEq] at h
      rw [← h.2]
      exact splitAfter_length hs
    · split at h <;> contradiction
  · have := tag _ (fun b => .closing (closingName b)) h
    simp only [List.length_cons]
    omega
  · exact tag _ openingEvent h

theorem scanEvent_length {c : Char} {s : List Char} {e : Event} {rest : List Char}
    (h : scanEvent c s = .ok (e, rest)) : rest.length ≤ s.length := by
  unfold scanEvent at h
  split at h
  · exact scanMarkup_length h
  · split at h
    · unfold scanReference at h
      simp only at h
      split at h
      · next hs =>
        simp only [Except.ok.injEq, Prod.mk.injEq] at h
        have := length_dropWhile_le (fun c => c != ';' && c != '&' && c != '<') s
        rw [hs] at this
        simp only [List.length_cons] at this
        rw [← h.2]
        omega
      · contradiction
    · simp only [Except.ok.injEq, Prod.mk.injEq] at h
      rw [← h.2]
      exact length_dropWhile_le _ _

/-! ## Whole documents -/

/-- The events of a text inside the elements `opened`, innermost first. -/
def eventsWithin (opened : List String) (s : List Char) : List Event :=
  match s with
  | [] => []
  | c :: rest =>
    match _h : scanEvent c rest with
    | .error fault => [.fault fault]
    | .ok (.opening element, after) =>
      .opening element :: eventsWithin (element.name :: opened) after
    | .ok (.closing name, after) =>
      match opened with
      | [] => [.fault (.unmatchedEnd name)]
      | expected :: outer =>
        if name = expected then .closing name :: eventsWithin outer after
        else [.fault (.mismatchedEnd expected name)]
    | .ok (event, after) => event :: eventsWithin opened after
termination_by s.length
decreasing_by
  all_goals
    have := scanEvent_length _h
    simp only [List.length_cons]
    omega

/-- The events of a document; a byte order mark before it is not part of it. -/
def events (document : String) : List Event :=
  match document.toList with
  | '\ufeff' :: rest => eventsWithin [] rest
  | s => eventsWithin [] s

end RecordSchema.Markup
