import RecordSchema.Yaml.Scalar.Plain

/-!
# Quoted scalars

In single quotes a quote is written twice and all else stands for itself.  In double quotes a
backslash begins an escape; before a line break it joins two lines.  Gaps over several lines are
folded.
-/

namespace RecordSchema.Yaml

/-- The digits that write a character's code. -/
def escapeDigits : Char → Option Nat
  | 'x' => some 2
  | 'u' => some 4
  | 'U' => some 8
  | _ => none

/-- Characters with a one-letter escape. -/
def escapedChar : Char → Option Char
  | '0' => some '\x00'
  | 'a' => some '\x07'
  | 'b' => some '\x08'
  | 't' | '\t' => some '\t'
  | 'n' => some '\n'
  | 'v' => some '\x0b'
  | 'f' => some '\x0c'
  | 'r' => some '\r'
  | 'e' => some '\x1b'
  | ' ' => some ' '
  | '"' => some '"'
  | '/' => some '/'
  | '\\' => some '\\'
  | 'N' => some '\u0085'
  | '_' => some '\u00a0'
  | 'L' => some '\u2028'
  | 'P' => some '\u2029'
  | _ => none

def hexDigit? (c : Char) : Option Nat :=
  if c.isDigit then some (c.toNat - '0'.toNat)
  else if 'a' ≤ c ∧ c ≤ 'f' then some (c.toNat - 'a'.toNat + 10)
  else if 'A' ≤ c ∧ c ≤ 'F' then some (c.toNat - 'A'.toNat + 10)
  else none

def hexNumber? (digits : List Char) : Option Nat :=
  digits.foldlM (fun n c => (hexDigit? c).map (16 * n + ·)) 0

/-- The character of a code in hexadecimal digits. -/
def codeChar? (digits : List Char) : Option Char := do
  let code ← hexNumber? digits
  if code.isValidChar then some (.ofNat code) else none

/-- Reads an escape, from the character after the backslash on. -/
def readEscape (e : Glyph) (rest : List Glyph) : Option (Char × Rest rest) :=
  match escapeDigits e.char with
  | none => (escapedChar e.char).map (·, .all rest)
  | some n =>
    let digits := rest.take n
    if digits.length = n then
      (codeChar? (digits.map (·.char))).map (·, .drop n rest)
    else none

/-- A gap of a quoted scalar, latest character first. -/
structure QuotedGap where
  /-- Whether it begins with an escaped line break. -/
  joined : Bool := false
  chars : List Char := []

def QuotedGap.text (gap : QuotedGap) : List Char :=
  if gap.joined then gap.chars.reverse.filter isBreak else foldGap gap.chars.reverse

/-- Reads a quoted scalar on, from behind its opening quote to behind its closing one. -/
def readQuoted (quote : Char) (gap : QuotedGap) : (gs : List Glyph) → Option (List Char × Rest gs)
  | [] => none
  | g :: rest =>
    if atDocumentMark (g :: rest) then none
    else if g.isGap then
      (readQuoted quote { gap with chars := g.char :: gap.chars } rest).map fun (s, r) =>
        (s, r.ofTail)
    else if g.char = quote then
      match rest with
      | next :: rest' =>
        if quote = '\'' ∧ next.char = '\'' then
          (readQuoted quote {} rest').map fun (s, r) => (gap.text ++ '\'' :: s, r.ofTail.ofTail)
        else some (gap.text, Rest.ofTail (.all (next :: rest')))
      | [] => some (gap.text, Rest.ofTail (.all []))
    else if quote = '"' ∧ g.char = '\\' then
      match rest with
      | e :: rest' =>
        if e.isBreak then
          (readQuoted quote { joined := true } rest').map fun (s, r) =>
            (gap.text ++ s, r.ofTail.ofTail)
        else
          (readEscape e rest').bind fun (c, ⟨after, h⟩) =>
            (readQuoted quote {} after).map fun (s, r) =>
              (gap.text ++ c :: s, (Rest.trans ⟨after, h⟩ r).ofTail.ofTail)
      | [] => none
    else (readQuoted quote {} rest).map fun (s, r) => (gap.text ++ g.char :: s, r.ofTail)
termination_by gs => gs.length
decreasing_by all_goals (simp only [List.length_cons]; omega)

end RecordSchema.Yaml
