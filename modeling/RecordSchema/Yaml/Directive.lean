import RecordSchema.Yaml.Scalar.Block
import RecordSchema.Yaml.Tag
import RecordSchema.Yaml.Token

/-!
# Directives

Lines before a document that begin with a percent sign.  One names the version of the format, the
others declare tag handles.
-/

namespace RecordSchema.Yaml

/-- Reads a number of at most nine digits. -/
def splitVersionNumber (s : List Char) : Option (Nat × List Char) :=
  let digits := s.takeWhile Char.isDigit
  if digits.isEmpty ∨ 9 < digits.length then none
  else some (digits.foldl (fun n c => 10 * n + (c.toNat - '0'.toNat)) 0, s.dropWhile Char.isDigit)

def splitVersion (s : List Char) : Option (Token × List Char) := do
  let (major, rest) ← splitVersionNumber (s.dropWhile isBlank)
  match rest with
  | '.' :: rest =>
    let (minor, rest) ← splitVersionNumber rest
    return (.version major minor, rest)
  | _ => none

/-- Reads the declaration of a handle: the handle and what it stands for, with blanks between. -/
def splitDeclaration (s : List Char) : Option (Token × List Char) := do
  let (handle, rest) ← splitHandle (s.dropWhile isBlank)
  if handle = ['!'] ∨ isNamedHandle handle then
    if rest.head?.any isBlank then
      let rest ← skipTagName1 true (rest.dropWhile isBlank)
      if rest.head?.all isBlank then some (.handle (.ofList handle), rest) else none
    else none
  else none

/-- The directive in a line, without its percent sign. -/
def directiveOfLine? (line : List Char) : Option Token := do
  let name := line.takeWhile isWord
  let rest := line.dropWhile isWord
  if rest.head?.all isBlank then
    let (token, rest) ←
      if name = "YAML".toList then splitVersion rest
      else if name = "TAG".toList then splitDeclaration rest
      else none
    if isLineEnd rest then some token else none
  else none

end RecordSchema.Yaml
