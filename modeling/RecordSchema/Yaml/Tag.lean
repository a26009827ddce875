import RecordSchema.Yaml.Scalar.Quoted

/-!
# Tags

The written form of tags.  Of a tag only its handle is kept: it has to be declared, while what a tag
says of its node is not used.
-/

namespace RecordSchema.Yaml

/-! ## Tag handles -/

/-- Reads a handle's characters: a mark, a word that may be empty, and a mark where there is one. -/
def splitHandle : List Char → Option (List Char × List Char)
  | '!' :: rest =>
    let word := rest.takeWhile isWord
    match rest.dropWhile isWord with
    | '!' :: rest => some ('!' :: word ++ ['!'], rest)
    | rest => some ('!' :: word, rest)
  | _ => none

/-- Whether characters that begin with a mark are a handle that is not the mark alone. -/
def isNamedHandle (handle : List Char) : Bool :=
  handle.length ≥ 2 && handle.getLast? == some '!'

/-! ## Tag names -/

/-- Characters of a tag's name. Those with a meaning in flow collections are `wide`. -/
def isTagChar (wide : Bool) (c : Char) : Bool :=
  isWord c || ";/?:@&=+$.!~*'()".toList.contains c || (wide && ",[]".toList.contains c)

/-- The octets of a character's encoding after the first. -/
def trailingOctets (lead : Nat) : Option Nat :=
  if lead < 0x80 then some 0
  else if lead < 0xc0 then none
  else if lead < 0xe0 then some 1
  else if lead < 0xf0 then some 2
  else if lead < 0xf8 then some 3
  else none

/-- Skips a tag's name, in which a percent sign with two digits stands for an octet. `pending` more
octets are due. -/
def skipTagName (wide : Bool) (pending : Nat) : List Char → Option (List Char)
  | '%' :: a :: b :: rest => do
    let octet ← hexNumber? [a, b]
    match pending with
    | 0 => skipTagName wide (← trailingOctets octet) rest
    | pending + 1 =>
      if 0x80 ≤ octet ∧ octet < 0xc0 then skipTagName wide pending rest else none
  | c :: rest =>
    if c = '%' ∨ 0 < pending then none
    else if isTagChar wide c then skipTagName wide 0 rest
    else some (c :: rest)
  | [] => if pending = 0 then some [] else none

/-- Skips a tag's name that is not empty. -/
def skipTagName1 (wide : Bool) (s : List Char) : Option (List Char) :=
  match skipTagName wide 0 s with
  | some rest => if rest.length < s.length then some rest else none
  | none => none

/-! ## Tags -/

/-- Reads a tag from the start of a line's text: its handle, and what follows it. -/
def splitTag? (s : List Char) : Option (String × List Char) :=
  match s with
  | '!' :: '<' :: rest => do
    match ← skipTagName1 true rest with
    | '>' :: rest => some ("", rest)
    | _ => none
  | _ => do
    let (handle, rest) ← splitHandle s
    if isNamedHandle handle then some (.ofList handle, ← skipTagName1 false rest)
    else some ("!", ← skipTagName false 0 rest)

end RecordSchema.Yaml
