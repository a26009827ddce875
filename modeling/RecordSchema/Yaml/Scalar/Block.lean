import RecordSchema.Yaml.Glyph

/-!
# Block scalars

Scalars that are set off by their indentation: literal ones keep their lines, folded ones join
neighbouring lines that do not begin with a blank.
-/

namespace RecordSchema.Yaml

/-- What becomes of the line breaks at the end of a block scalar. -/
inductive Chomping where
  | strip
  /-- The last line keeps its own. -/
  | clip
  | keep
deriving DecidableEq, Repr

def Chomping.ofChar? (c : Char) : Option Chomping :=
  if c = '+' then some .keep else if c = '-' then some .strip else none

structure BlockHeader where
  chomping : Chomping := .clip
  /-- How far the lines are indented against what is around them, where the header tells it. -/
  increment : Option Nat := none
deriving Repr

def indentDigit? (c : Char) : Option Nat :=
  if c.isDigit ∧ c ≠ '0' then some (c.toNat - '0'.toNat) else none

/-- Reads the indicators of a header, each of which may be left out, in either order. -/
def BlockHeader.ofChars : List Char → BlockHeader × List Char
  | [] => ({}, [])
  | c :: rest =>
    match Chomping.ofChar? c, indentDigit? c with
    | some chomping, _ =>
      match rest.head?.bind indentDigit? with
      | some n => ({ chomping, increment := n }, rest.drop 1)
      | none => ({ chomping }, rest)
    | none, some n =>
      match rest.head?.bind Chomping.ofChar? with
      | some chomping => ({ chomping, increment := n }, rest.drop 1)
      | none => ({ increment := n }, rest)
    | none, none => ({}, c :: rest)

/-- Whether nothing but blanks and a comment is left of a line. -/
def isLineEnd (s : List Char) : Bool := (s.dropWhile isBlank).head?.all (· == '#')

/-- The header in the line of a block scalar's indicator, which holds nothing else but a comment. -/
def BlockHeader.ofLine? (line : List Char) : Option BlockHeader :=
  let (header, rest) := ofChars line
  if isLineEnd rest then some header else none

/-- The characters up to the end of the line. -/
def lineChars (gs : List Glyph) : List Char := (gs.takeWhile fun g => !g.isBreak).map (·.char)

/-- What follows the line and its break. -/
def nextLine (gs : List Glyph) : Rest gs :=
  (Rest.dropWhile (fun g => !g.isBreak) gs).trans (.drop 1 _)

/-- Line breaks before a line of a block scalar. -/
structure BlockGap where
  breaks : Array Char := #[]
  /-- The furthest column that the indentation of its lines reaches. -/
  reach : Nat := 0

/-- Reads empty lines and the indentation of the line after them, which goes as far as the blanks go
if `indent` is not given. A tab cannot indent. -/
def BlockGap.read (indent : Option Nat) (gap : BlockGap) :
    (gs : List Glyph) → Option (BlockGap × Rest gs)
  | [] => some (gap, .all [])
  | g :: rest =>
    let isIndentation := indent.all fun n => decide (g.column < n)
    if isIndentation && g.char == ' ' then
      (BlockGap.read indent gap rest).map fun (gap, r) => (gap, r.ofTail)
    else if isIndentation && g.char == '\t' then none
    else
      let gap := { gap with reach := max gap.reach g.column }
      if g.isBreak then
        (BlockGap.read indent { gap with breaks := gap.breaks.push g.char } rest).map
          fun (gap, r) => (gap, r.ofTail)
      else some (gap, .all (g :: rest))

/-- A block scalar as far as it was read. -/
structure BlockText where
  text : Array Char := #[]
  /-- The break of the last line. -/
  lineBreak : Option Char := none
  /-- The breaks of the empty lines after it. -/
  breaks : Array Char := #[]
  /-- Whether the last line begins with a blank. -/
  startsBlank : Bool := false

/-- Adds a line that begins with `c`. -/
def BlockText.addLine (isLiteral : Bool) (b : BlockText) (c : Char) (line : List Char) :
    BlockText :=
  let folds := !isLiteral && b.lineBreak == some '\n' && !b.startsBlank && !isBlank c
  let lineBreak := if folds then if b.breaks.isEmpty then some ' ' else none else b.lineBreak
  { text := b.text ++ lineBreak.toArray ++ b.breaks ++ c :: line, startsBlank := isBlank c }

/-- Reads the lines that are indented to column `indent`. -/
def BlockText.read (isLiteral : Bool) (indent : Nat) (b : BlockText) :
    (gs : List Glyph) → Option (BlockText × Rest gs)
  | [] => some (b, .all [])
  | g :: rest =>
    if g.column = indent then
      let b := b.addLine isLiteral g.char (lineChars rest)
      let lineBreak := (rest.find? Glyph.isBreak).map (·.char)
      let ⟨after, h⟩ := nextLine rest
      (BlockGap.read (some indent) {} after).bind fun (gap, ⟨after', h'⟩) =>
        (BlockText.read isLiteral indent { b with lineBreak, breaks := gap.breaks } after').map
          fun (b, r) => (b, (Rest.trans ⟨after, h⟩ (Rest.trans ⟨after', h'⟩ r)).ofTail)
    else some (b, .all (g :: rest))
termination_by gs => gs.length
decreasing_by simp only [List.length_cons]; omega

def BlockText.chomp (chomping : Chomping) (b : BlockText) : Array Char :=
  match chomping with
  | .strip => b.text
  | .clip => b.text ++ b.lineBreak.toArray
  | .keep => b.text ++ b.lineBreak.toArray ++ b.breaks

/-- Reads a block scalar from behind its indicator on, inside of what is indented to `parent`. -/
def readBlock (isLiteral : Bool) (parent : Option Nat) (gs : List Glyph) :
    Option (List Char × Rest gs) := do
  let header ← BlockHeader.ofLine? (lineChars gs)
  let first := nextLine gs
  let given := header.increment.map (parent.getD 0 + ·)
  let (gap, r) ← BlockGap.read given {} first.1
  let indent := given.getD (max gap.reach ((parent.map (· + 1)).getD 0) |> max 1)
  let (b, r') ← BlockText.read isLiteral indent { breaks := gap.breaks } r.1
  return ((b.chomp header.chomping).toList, first.trans (r.trans r'))

end RecordSchema.Yaml
