/-!
# Values of options

How the text of an option's value is read.
-/

namespace RecordSchema.CommandLine

/-- Why a text is no value of its option. -/
inductive ValueFault where
  | noPair (text : String)
  | emptyKey (text : String)
  | noDigits
  | invalidDigit
  | tooLarge
deriving DecidableEq, Repr

def ValueFault.message : ValueFault → String
  | noPair text => s!"expected KEY=VALUE, got `{text}`"
  | emptyKey text => s!"empty key in `{text}`"
  | noDigits => "cannot parse integer from empty string"
  | invalidDigit => "invalid digit found in string"
  | tooLarge => "number too large to fit in target type"

/-- Splits a text at the first occurrence of a character. -/
def splitAt? (c : Char) (text : String) : Option (String × String) :=
  match text.toList.dropWhile (· != c) with
  | [] => none
  | _ :: rest => some (.ofList (text.toList.takeWhile (· != c)), .ofList rest)

/-- A key and a value with an equals sign between them. -/
def readPair (text : String) : Except ValueFault (String × String) :=
  match splitAt? '=' text with
  | none => .error (.noPair text)
  | some (key, value) => if key.isEmpty then .error (.emptyKey text) else .ok (key, value)

/-- The largest number that an option takes. -/
def maxCount : Nat := UInt64.size - 1

/-- Reads the digits of a number that goes on from `n`, up to the first fault. -/
def readDigits (n : Nat) : List Char → Except ValueFault Nat
  | [] => .ok n
  | c :: rest =>
    if !c.isDigit then .error .invalidDigit
    else
      let n := 10 * n + (c.toNat - '0'.toNat)
      if maxCount < n then .error .tooLarge else readDigits n rest

/-- A number in decimal digits, which a plus sign may stand before. -/
def readCount (text : String) : Except ValueFault Nat :=
  match text.toList with
  | [] => .error .noDigits
  | ['+'] => .error .invalidDigit
  | '+' :: digits => readDigits 0 digits
  | digits => readDigits 0 digits

end RecordSchema.CommandLine
