/-!
# JSON

JSON values whose objects keep the order of their keys, and their text with two blanks for each
level.
-/

namespace RecordSchema

inductive Json where
  | null
  | bool (b : Bool)
  | num (n : Nat)
  | str (s : String)
  | arr (items : List Json)
  | obj (members : List (String × Json))

namespace Json

def strings (items : List String) : Json := arr (items.map str)

def ofOption {α : Type} (f : α → Json) : Option α → Json
  | some a => f a
  | none => null

def hexDigit (n : Nat) : Char :=
  if n < 10 then Char.ofNat ('0'.toNat + n) else Char.ofNat ('a'.toNat + (n - 10))

/-- A character in a quoted text: quotes, backslashes and control characters are escaped. -/
def escapeChar (c : Char) : List Char :=
  match c with
  | '"' => ['\\', '"']
  | '\\' => ['\\', '\\']
  | '\n' => ['\\', 'n']
  | '\r' => ['\\', 'r']
  | '\t' => ['\\', 't']
  | '\x08' => ['\\', 'b']
  | '\x0c' => ['\\', 'f']
  | c =>
    if c.toNat < 0x20 then ['\\', 'u', '0', '0', hexDigit (c.toNat / 16), hexDigit (c.toNat % 16)]
    else [c]

def quote (s : String) : String := String.ofList ('"' :: s.toList.flatMap escapeChar ++ ['"'])

def newline (depth : Nat) : String := "\n" ++ String.ofList (List.replicate (2 * depth) ' ')

mutual

/-- The text of a value whose first line is indented already. -/
def prettyAt (depth : Nat) : Json → String
  | null => "null"
  | bool b => if b then "true" else "false"
  | num n => toString n
  | str s => quote s
  | arr [] => "[]"
  | arr (item :: rest) =>
    "[" ++ newline (depth + 1) ++ prettyAt (depth + 1) item ++ prettyItems (depth + 1) rest ++
      newline depth ++ "]"
  | obj [] => "\x7b\x7d"
  | obj ((key, value) :: rest) =>
    "\x7b" ++ newline (depth + 1) ++ quote key ++ ": " ++ prettyAt (depth + 1) value ++
      prettyMembers (depth + 1) rest ++ newline depth ++ "\x7d"

def prettyItems (depth : Nat) : List Json → String
  | [] => ""
  | item :: rest => "," ++ newline depth ++ prettyAt depth item ++ prettyItems depth rest

def prettyMembers (depth : Nat) : List (String × Json) → String
  | [] => ""
  | (key, value) :: rest =>
    "," ++ newline depth ++ quote key ++ ": " ++ prettyAt depth value ++ prettyMembers depth rest

end

def pretty (j : Json) : String := prettyAt 0 j

end Json

end RecordSchema
