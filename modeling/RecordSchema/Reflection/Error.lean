/-!
# Reflection errors

Why a record cannot be reflected, with the way from the record that was asked for to the fault.
-/

namespace RecordSchema.Reflection

inductive ReflectError where
  | notARecord (name kind : String)
  | anonymous
  | unknownRecord (name : String)
  | field (record field : String) (source : ReflectError)
  | embedded (record embedded : String) (source : ReflectError)
deriving DecidableEq, Repr

namespace ReflectError

def message : ReflectError → String
  | notARecord name kind => s!"expected record, got {kind} '{name}'"
  | anonymous => "record has no name (anonymous records are not supported)"
  | unknownRecord name => s!"unknown record '{name}'"
  | field record name _ => s!"analyzing field '{name}' of '{record}'"
  | embedded record name _ => s!"analyzing embedded record '{name}' of '{record}'"

/-- The messages from the outermost error to the innermost. -/
def chain : ReflectError → List String
  | field record name source => (field record name source).message :: source.chain
  | embedded record name source => (embedded record name source).message :: source.chain
  | e => [e.message]

/-- The innermost error. -/
def rootCause : ReflectError → ReflectError
  | field _ _ source | embedded _ _ source => source.rootCause
  | e => e

end ReflectError

end RecordSchema.Reflection
