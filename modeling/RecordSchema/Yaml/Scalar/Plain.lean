import RecordSchema.Yaml.Glyph

/-!
# Plain scalars

Scalars without quotes: words with gaps between them.  A gap within a line stands for itself, one
over several lines is folded.
-/

namespace RecordSchema.Yaml

/-- The text that a gap stands for. A single line break is a space; of more, the first is left out
unless it is a separator of its own kind. -/
def foldGap (gap : List Char) : List Char :=
  match gap.filter isBreak with
  | [] => gap
  | ['\n'] => [' ']
  | '\n' :: breaks => breaks
  | breaks => breaks

/-- Characters with a meaning of their own in flow collections. -/
def isFlowMark (c : Char) : Bool := c == ',' || c == '[' || c == ']' || c == '{' || c == '}'

/-- Whether a plain scalar ends before a character, `rest` being what follows it. -/
def endsPlain (inFlow : Bool) (c : Char) (rest : List Glyph) : Bool :=
  (c == ':' && gapNext rest) || (inFlow && isFlowMark c)

/-- A colon that a flow collection does not allow in a plain scalar. -/
def isStrayColon (inFlow : Bool) (c : Char) (rest : List Glyph) : Bool :=
  inFlow && c == ':' && rest.head?.any fun g => isFlowMark g.char || g.char == '?'

/-- A tab in the indentation of a line that goes on with a scalar. -/
def isStrayTab (indent : Nat) (gap : List Glyph) (g : Glyph) : Bool :=
  g.char == '\t' && decide (g.column < indent) && gap.any Glyph.isBreak

/-- A plain scalar as it was read. -/
structure Plain where
  text : List Char
  /-- Whether a line break follows it. -/
  endsLine : Bool

def Plain.prepend (s : List Char) (p : Plain) : Plain := { p with text := s ++ p.text }

/-- Reads a plain scalar on. `gap` is the gap that was read since the last word, latest first; lines
of a scalar in a block begin at column `indent` or after it. -/
def Plain.read (inFlow : Bool) (indent : Nat) (gap : List Glyph) :
    (gs : List Glyph) → Option (Plain × Rest gs)
  | [] => some (⟨[], gap.any Glyph.isBreak⟩, .all [])
  | g :: rest =>
    if g.isGap then
      if isStrayTab indent gap g then none
      else (Plain.read inFlow indent (g :: gap) rest).map fun (p, r) => (p, r.ofTail)
    else
      let stops := !gap.isEmpty && ((!inFlow && decide (g.column < indent)) || g.char == '#' ||
        atDocumentMark (g :: rest))
      if stops then some (⟨[], gap.any Glyph.isBreak⟩, .all (g :: rest))
      else if isStrayColon inFlow g.char rest then none
      else if endsPlain inFlow g.char rest then
        some (⟨[], gap.any Glyph.isBreak⟩, .all (g :: rest))
      else
        (Plain.read inFlow indent [] rest).map fun (p, r) =>
          (p.prepend (foldGap (gap.reverse.map (·.char)) ++ [g.char]), r.ofTail)

end RecordSchema.Yaml
