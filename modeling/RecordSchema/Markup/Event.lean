/-!
# Markup events

A document is delivered as a list of events in document order.  A fault of the markup is the last
event of its document.
-/

namespace RecordSchema.Markup

/-- Blanks between the parts of a tag. -/
def isSpace (c : Char) : Bool := c == ' ' || c == '\t' || c == '\r' || c == '\n'

def isQuote (c : Char) : Bool := c == '\'' || c == '"'

/-- What a start tag says. Values are kept as they are written. -/
structure Element where
  name : String
  /-- In document order; no key occurs twice. -/
  attributes : List (String × String) := []
deriving DecidableEq, Repr

inductive Fault where
  | unclosedReference
  | unclosedTag
  | unclosedQuote (quote : Char)
  | unclosedComment
  | unclosedCData
  | unclosedDoctype
  | unclosedInstruction
  | unclosedDeclaration
  | unknownMarkup
  | namelessDoctype
  | mismatchedEnd (expected found : String)
  | unmatchedEnd (found : String)
deriving DecidableEq, Repr

def Fault.message : Fault → String
  | unclosedReference =>
    "ill-formed document: entity or character reference not closed: " ++
      "`;` not found before end of input"
  | unclosedTag => "syntax error: tag not closed: `>` not found before end of input"
  | unclosedQuote quote =>
    s!"syntax error: attribute value not closed: `{quote}` not found before end of input"
  | unclosedComment => "syntax error: comment not closed: `-->` not found before end of input"
  | unclosedCData => "syntax error: CDATA not closed: `]]>` not found before end of input"
  | unclosedDoctype => "syntax error: DOCTYPE not closed: `>` not found before end of input"
  | unclosedInstruction =>
    "syntax error: processing instruction not closed: `?>` not found before end of input"
  | unclosedDeclaration =>
    "syntax error: XML declaration not closed: `?>` not found before end of input"
  | unknownMarkup => "syntax error: unknown or missed symbol in markup"
  | namelessDoctype =>
    "ill-formed document: `<!DOCTYPE>` declaration does not contain a name of a document type"
  | mismatchedEnd expected found =>
    s!"ill-formed document: expected `</{expected}>`, but `</{found}>` was found"
  | unmatchedEnd found =>
    s!"ill-formed document: close tag `</{found}>` does not match any open tag"

inductive Event where
  | opening (element : Element)
  /-- An element written as one self-closing tag. -/
  | selfClosing (element : Element)
  | closing (name : String)
  | text (content : String)
  | reference (name : String)
  | cdata (content : String)
  | comment (content : String)
  | instruction (content : String)
  | doctype (content : String)
  | fault (fault : Fault)
deriving DecidableEq, Repr

end RecordSchema.Markup
