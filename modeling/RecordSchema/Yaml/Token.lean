/-!
# Tokens of YAML

A text in YAML as a list of tokens.  Indentation is made explicit: a block sequence or mapping
begins with a token of its own and ends with `blockEnd`, and every key is announced by `key`.
-/

namespace RecordSchema.Yaml

inductive Token where
  | version (major minor : Nat)
  /-- Declares a tag handle. -/
  | handle (name : String)
  | documentStart
  | documentEnd
  | blockSequenceStart
  | blockMappingStart
  | blockEnd
  | flowSequenceStart
  | flowSequenceEnd
  | flowMappingStart
  | flowMappingEnd
  /-- The dash before an item of a block sequence. -/
  | blockEntry
  /-- The comma between the entries of a flow collection. -/
  | flowEntry
  | key
  | value
  | aliasTo (name : String)
  | anchor (name : String)
  /-- A tag by the handle it is written with, which is empty for a tag written in full. -/
  | tag (handle : String)
  | scalar (text : String) (isPlain : Bool)
deriving DecidableEq, Repr

end RecordSchema.Yaml
