/-!
# Placed characters

A text as a list of characters, each with the line and column it stands at.  All line breaks are
written alike, so that what reads the text need not tell them apart.
-/

namespace RecordSchema.Yaml

/-- What is left of a list once something has been read from its front. -/
abbrev Rest {α : Type} (l : List α) : Type := { r : List α // r.length ≤ l.length }

namespace Rest

variable {α : Type} {a : α} {l : List α}

def all (l : List α) : Rest l := ⟨l, l.length.le_refl⟩

/-- What is left of a longer list. -/
def ofTail (r : Rest l) : Rest (a :: l) := ⟨r.1, Nat.le_succ_of_le r.2⟩

def trans (r : Rest l) (r' : Rest r.1) : Rest l := ⟨r'.1, Nat.le_trans r'.2 r.2⟩

def drop (n : Nat) (l : List α) : Rest l := ⟨l.drop n, by simp⟩

def dropWhile (p : α → Bool) (l : List α) : Rest l :=
  ⟨l.dropWhile p, l.dropWhile_sublist p |>.length_le⟩

end Rest

/-! ## Kinds of characters -/

def isBlank (c : Char) : Bool := c == ' ' || c == '\t'

def isBreak (c : Char) : Bool := c == '\n' || c == '\u2028' || c == '\u2029'

def isGap (c : Char) : Bool := isBlank c || isBreak c

/-- Characters of the names of anchors, tags and directives. -/
def isWord (c : Char) : Bool := c.isAlphanum || c == '_' || c == '-'

/-- Characters that a text may hold. -/
def isPrintable (c : Char) : Bool :=
  c == '\t' || c == '\n' || c == '\r' || c == '\u0085' || (' ' ≤ c && c ≤ '~') ||
    ('\u00a0' ≤ c && c != '\ufffe' && c != '\uffff')

/-- The mark that some editors put at the start of a text. -/
def byteOrderMark : Char := '\ufeff'

/-! ## Places -/

/-- A character with the line and column it stands at, counted from 0. -/
structure Glyph where
  char : Char
  line : Nat
  column : Nat
  /-- How many octets of the text stand before it. -/
  offset : Nat
deriving DecidableEq, Repr

namespace Glyph

def isGap (g : Glyph) : Bool := Yaml.isGap g.char

def isBreak (g : Glyph) : Bool := Yaml.isBreak g.char

/-- The characters of a text from a place on. A carriage return, with or without a line feed, and
U+0085 break a line as a line feed does. -/
def ofChars (line column offset : Nat) : List Char → List Glyph
  | [] => []
  | '\r' :: '\n' :: rest => ⟨'\n', line, column, offset⟩ :: ofChars (line + 1) 0 (offset + 2) rest
  | c :: rest =>
    let next := offset + c.utf8Size
    let c := if c = '\r' ∨ c = '\u0085' then '\n' else c
    ⟨c, line, column, offset⟩ ::
      if Yaml.isBreak c then ofChars (line + 1) 0 next rest else ofChars line (column + 1) next rest

/-- The characters of a text that holds no unprintable ones. -/
def ofText? (text : String) : Option (List Glyph) :=
  if text.toList.all isPrintable then some (ofChars 0 0 0 text.toList) else none

end Glyph

/-- Whether what follows begins with a gap or is at the end. -/
def gapNext (gs : List Glyph) : Bool := gs.head?.all Glyph.isGap

/-- Whether a mark of three characters `c` that begins or ends a document stands at the start of a
line. -/
def isDocumentMark (c : Char) : List Glyph → Bool
  | g₁ :: g₂ :: g₃ :: rest =>
    g₁.column == 0 && g₁.char == c && g₂.char == c && g₃.char == c && gapNext rest
  | _ => false

/-- Whether a document begins or ends here. -/
def atDocumentMark (gs : List Glyph) : Bool := isDocumentMark '-' gs || isDocumentMark '.' gs

end RecordSchema.Yaml
