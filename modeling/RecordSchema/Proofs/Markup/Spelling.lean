import RecordSchema.Markup.Event
import RecordSchema.Text.Blank

/-!
# Spellings of texts

A character of a text can be written as it is, as a reference or in a CDATA section.
-/

namespace RecordSchema.Text

def isVisible (c : Char) : Bool := !isBlank c

theorem countP_dropWhile_isBlank (s : List Char) :
    (s.dropWhile isBlank).countP isVisible = s.countP isVisible := by
  induction s with
  | nil => rfl
  | cons c s ih =>
      cases hc : isBlank c with
      | true =>
          have hinvisible : ¬isVisible c = true := by simp [isVisible, hc]
          rw [List.dropWhile_cons_of_pos hc, List.countP_cons_of_neg hinvisible, ih]
      | false => rw [List.dropWhile_cons_of_neg (by simp [hc])]

/-- Only blanks are trimmed. -/
theorem countP_trim (s : String) :
    (trim s).toList.countP isVisible = s.toList.countP isVisible := by
  rw [trim, String.toList_ofList, trimChars, List.countP_reverse, countP_dropWhile_isBlank,
    List.countP_reverse, countP_dropWhile_isBlank]

end RecordSchema.Text

namespace RecordSchema.Markup

/-! ## References -/

/-- The number that some digits write. -/
def number? (base : Nat) : List Char → Option Nat
  | [] => none
  | digits =>
    let digit? (c : Char) := ("0123456789abcdef".toList.idxOf? c.toLower).filter (· < base)
    digits.foldlM (fun n c => (digit? c).map (base * n + ·)) 0

def numbered? (n : Nat) : Option Char := if n.isValidChar then some (.ofNat n) else none

def entities : List (String × Char) :=
  [("amp", '&'), ("lt", '<'), ("gt", '>'), ("quot", '"'), ("apos", '\'')]

/-- The character that a reference stands for, by its number or its name. -/
def referent? (name : String) : Option Char :=
  match name.toList with
  | '#' :: 'x' :: digits => (number? 16 digits).bind numbered?
  | '#' :: digits => (number? 10 digits).bind numbered?
  | _ => entities.lookup name

/-! ## Texts -/

/-- A text in pieces, which spell its characters. -/
inductive Spells : List Event → List Char → Prop
  | nil : Spells [] []
  | text {content : String} {parts : List Event} {chars : List Char} (tail : Spells parts chars) :
      Spells (.text content :: parts) (content.toList ++ chars)
  | cdata {content : String} {parts : List Event} {chars : List Char} (tail : Spells parts chars) :
      Spells (.cdata content :: parts) (content.toList ++ chars)
  | reference {name : String} {c : Char} {parts : List Event} {chars : List Char}
      (referent : referent? name = some c) (tail : Spells parts chars) :
      Spells (.reference name :: parts) (c :: chars)

/-- The characters that are not written as they are. -/
def coded : List Event → List Char
  | [] => []
  | .cdata content :: rest => content.toList ++ coded rest
  | .reference name :: rest => (referent? name).toList ++ coded rest
  | _ :: rest => coded rest

end RecordSchema.Markup
