import RecordSchema.Yaml.Directive
import RecordSchema.Yaml.Scalar.Plain

/-!
# Layout

The tokens of a text, with the structure that its indentation gives it.  What begins a key is known
only once the colon after it is met, so a place where a key may begin is remembered, and the tokens
that announce the key are put there later.
-/

namespace RecordSchema.Yaml

/-- A place where a key may begin. -/
structure KeyPlace where
  line : Nat
  column : Nat
  /-- How many octets of the text stand before it. -/
  offset : Nat
  /-- How many tokens stand before it. -/
  before : Nat
  /-- Whether nothing but a key can stand here. -/
  isRequired : Bool
deriving DecidableEq, Repr

/-- The octets of the longest key that needs no mark. -/
def maxKeyLength : Nat := 1024

/-- Whether a colon at a place is too far away to end a key. -/
def KeyPlace.isOutOfReach (k : KeyPlace) (g : Glyph) : Bool :=
  decide (k.line < g.line) || decide (k.offset + maxKeyLength < g.offset)

/-- What is known of a text up to a place. -/
structure Layout where
  tokens : Array Token := #[]
  /-- The columns of the open block collections, innermost first. -/
  indents : List Nat := []
  /-- A key may have begun here. -/
  candidate : Option KeyPlace := none
  /-- The same for each open flow collection, of what is around it. -/
  outer : List (Option KeyPlace) := []
  /-- Whether a key may begin without a mark. -/
  keyAllowed : Bool := true

namespace Layout

def inFlow (l : Layout) : Bool := !l.outer.isEmpty

def push (l : Layout) (t : Token) : Layout := { l with tokens := l.tokens.push t }

/-- Puts a token where `before` tokens stand before it. -/
def insertAt (l : Layout) (before : Nat) (t : Token) : Layout :=
  { l with tokens := l.tokens.insertIdxIfInBounds before t }

/-! ## Indentation -/

/-- Ends the block collections whose column satisfies `p`, up to the first that does not. -/
def closeWhile (l : Layout) (p : Nat → Bool) : Layout :=
  if l.inFlow then l
  else
    let ended := (l.indents.takeWhile p).length
    let tokens := l.tokens ++ Array.replicate ended .blockEnd
    { l with indents := l.indents.drop ended, tokens }

def dedent (l : Layout) (column : Nat) : Layout := l.closeWhile fun n => decide (column < n)

def closeAll (l : Layout) : Layout := l.closeWhile fun _ => true

/-- Begins a block collection at a column, unless one stands there or further in. -/
def indent (l : Layout) (column before : Nat) (start : Token) : Layout :=
  if l.inFlow ∨ l.indents.head?.any (fun n => decide (column ≤ n)) then l
  else { l.insertAt before start with indents := column :: l.indents }

/-- Begins a block collection here. -/
def indentHere (l : Layout) (column : Nat) (start : Token) : Layout :=
  l.indent column l.tokens.size start

/-! ## Keys -/

/-- Gives up the key that may have begun on this level. -/
def dropKey (l : Layout) : Option Layout :=
  if l.candidate.any (·.isRequired) then none else some { l with candidate := none }

/-- Remembers that a key may begin here. -/
def markKey (l : Layout) (g : Glyph) : Option Layout :=
  if l.keyAllowed then do
    let l ← l.dropKey
    let isRequired := !l.inFlow && l.indents.head? == some g.column
    return { l with candidate := some ⟨g.line, g.column, g.offset, l.tokens.size, isRequired⟩ }
  else some l

/-- Gives up a key that began too far before a place. -/
def expireKey (l : Layout) (g : Glyph) : Option Layout :=
  if l.candidate.any (·.isOutOfReach g) then l.dropKey else some l

/-! ## Tokens -/

def flowStart (l : Layout) (g : Glyph) (t : Token) : Option Layout := do
  let l ← l.markKey g
  return { l.push t with candidate := none, outer := l.candidate :: l.outer, keyAllowed := true }

def flowEnd (l : Layout) (t : Token) : Option Layout := do
  let l ← l.dropKey
  match l.outer with
  | [] => none
  | candidate :: outer => return { l.push t with candidate, outer, keyAllowed := false }

def flowEntry (l : Layout) : Option Layout := do
  let l ← l.dropKey
  return { l.push .flowEntry with keyAllowed := true }

/-- Begins a block collection with a mark at a column; no other thing may stand before it in its
line. -/
def blockMark (l : Layout) (column : Nat) (start : Token) : Option Layout :=
  if l.inFlow then some l
  else if l.keyAllowed then some (l.indentHere column start)
  else none

def blockEntry (l : Layout) (column : Nat) : Option Layout := do
  let l ← (← l.blockMark column .blockSequenceStart).dropKey
  return { l.push .blockEntry with keyAllowed := true }

def key (l : Layout) (column : Nat) : Option Layout := do
  let l ← (← l.blockMark column .blockMappingStart).dropKey
  return { l.push .key with keyAllowed := !l.inFlow }

def value (l : Layout) (column : Nat) : Option Layout :=
  match l.candidate with
  | some k =>
    let l := (l.insertAt k.before .key).indent k.column k.before .blockMappingStart
    some { l.push .value with candidate := none, keyAllowed := false }
  | none => do
    let l ← l.blockMark column .blockMappingStart
    return { l.push .value with keyAllowed := !l.inFlow }

/-- Something that a key can begin with. -/
def keyStart (l : Layout) (g : Glyph) (t : Token) : Option Layout := do
  let l ← l.markKey g
  return { l.push t with keyAllowed := false }

def blockScalar (l : Layout) (text : List Char) : Option Layout := do
  let l ← l.dropKey
  return { l.push (.scalar (.ofList text) false) with keyAllowed := true }

/-- A directive or a mark between documents. -/
def documentMark (l : Layout) (t : Token) : Option Layout := do
  let l ← l.closeAll.dropKey
  return { l.push t with keyAllowed := false }

/-! ## Reading -/

/-- Reads the name of an anchor or alias. -/
def readName (gs : List Glyph) : Option (String × Rest gs) :=
  let name := (gs.takeWhile fun g => isWord g.char).map (·.char)
  let rest := Rest.dropWhile (fun g => isWord g.char) gs
  let isEnd := rest.1.head?.all fun g => g.isGap || "?:,]\x7d%@`".toList.contains g.char
  if !name.isEmpty && isEnd then some (.ofList name, rest) else none

/-- Reads a tag from the text of its line. -/
def readTag (inFlow : Bool) (g : Glyph) (gs : List Glyph) : Option (String × Rest gs) := do
  let line := lineChars gs
  let (handle, rest) ← splitTag? (g.char :: line)
  if rest.head?.all fun c => isBlank c || (inFlow && c == ',') then
    return (handle, .drop (line.length - rest.length) gs)
  else none

/-- Characters that no plain scalar begins with. -/
def isIndicator (c : Char) : Bool := "-?:,[]\x7b\x7d#&*!|>'\"%@`".toList.contains c

/-- Whether a plain scalar begins with `g`. -/
def startsPlain (inFlow : Bool) (g : Glyph) (rest : List Glyph) : Bool :=
  !(g.isGap || isIndicator g.char) || (g.char == '-' && !rest.head?.any fun g => isBlank g.char) ||
    (!inFlow && (g.char == '?' || g.char == ':') && !gapNext rest)

/-- Reads a scalar, anchor, alias or tag that begins with `g`. -/
def readContent (l : Layout) (g : Glyph) (rest : List Glyph) : Option (Layout × Rest rest) :=
  match g.char with
  | '*' => do
    let (name, r) ← readName rest
    return (← l.keyStart g (.aliasTo name), r)
  | '&' => do
    let (name, r) ← readName rest
    return (← l.keyStart g (.anchor name), r)
  | '!' => do
    let (handle, r) ← readTag l.inFlow g rest
    return (← l.keyStart g (.tag handle), r)
  | '\'' | '"' => do
    let (text, r) ← readQuoted g.char {} rest
    return (← l.keyStart g (.scalar (.ofList text) false), r)
  | c =>
    if (c == '|' || c == '>') && !l.inFlow then do
      let (text, r) ← readBlock (c == '|') l.indents.head? rest
      return (← l.blockScalar text, r)
    else if startsPlain l.inFlow g rest then do
      let indent := (l.indents.head?.map (· + 1)).getD 0
      let (plain, r) ← Plain.read l.inFlow indent [] rest
      let l ← l.keyStart g (.scalar (.ofList (c :: plain.text)) true)
      return ({ l with keyAllowed := plain.endsLine }, r)
    else none

/-- Reads what begins with `g`, which is neither a gap nor a comment. -/
def read (l : Layout) (g : Glyph) (rest : List Glyph) : Option (Layout × Rest rest) :=
  let isMark := l.inFlow || gapNext rest
  if g.column = 0 ∧ g.char = '%' then do
    let token ← directiveOfLine? (lineChars rest)
    return (← l.documentMark token, nextLine rest)
  else if isDocumentMark '-' (g :: rest) then
    (l.documentMark .documentStart).map (·, .drop 2 rest)
  else if isDocumentMark '.' (g :: rest) then
    (l.documentMark .documentEnd).map (·, .drop 2 rest)
  else
    match g.char with
    | '[' => (l.flowStart g .flowSequenceStart).map (·, .all rest)
    | '{' => (l.flowStart g .flowMappingStart).map (·, .all rest)
    | ']' => (l.flowEnd .flowSequenceEnd).map (·, .all rest)
    | '}' => (l.flowEnd .flowMappingEnd).map (·, .all rest)
    | ',' => l.flowEntry.map (·, .all rest)
    | c =>
      if c = '-' ∧ gapNext rest then (l.blockEntry g.column).map (·, .all rest)
      else if c = '?' ∧ isMark then (l.key g.column).map (·, .all rest)
      else if c = ':' ∧ isMark then (l.value g.column).map (·, .all rest)
      else l.readContent g rest

/-- Whether `g` separates tokens. A tab does only where no key can begin. -/
def isSkipped (l : Layout) (g : Glyph) : Bool :=
  g.char == ' ' || (g.char == '\t' && (l.inFlow || !l.keyAllowed)) ||
    (g.char == byteOrderMark && g.column == 0)

/-- The tokens of the text before and those of the text from here on. -/
def tokensOf (l : Layout) : List Glyph → Option (List Token)
  | [] => l.closeAll.dropKey.map (·.tokens.toList)
  | g :: rest =>
    if l.isSkipped g then l.tokensOf rest
    else if g.char = '#' then
      let ⟨rest, _⟩ := Rest.dropWhile (fun g => !g.isBreak) rest
      l.tokensOf rest
    else if g.isBreak then { l with keyAllowed := l.keyAllowed || !l.inFlow }.tokensOf rest
    else do
      let l ← l.expireKey g
      let (l, ⟨rest, _⟩) ← (l.dedent g.column).read g rest
      l.tokensOf rest
termination_by gs => gs.length

end Layout

/-- The tokens of a text. -/
def Token.ofText? (text : String) : Option (List Token) := do
  Layout.tokensOf {} (← Glyph.ofText? text)

end RecordSchema.Yaml
