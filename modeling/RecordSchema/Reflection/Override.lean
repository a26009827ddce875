import RecordSchema.Schema.Field

/-!
# Overrides

What the platform knows about some fields and their declarations do not say: identities that it
assigns, sizes that it reports, and names that cannot change.
-/

namespace RecordSchema.Reflection

open Schema (Field Optionality PlanHint)

structure OverrideRule where
  /-- The output names the rule is about. -/
  fields : List String
  /-- The structs the rule is limited to; if there are none it holds everywhere. -/
  structs : List String
  optionality : Optionality
  planHint : Option PlanHint
deriving DecidableEq, Repr

namespace OverrideRule

/-- A rule limited to some structs is not about the attributes taken from a field's value. -/
def matchesField (r : OverrideRule) (owner : String) (f : Field) : Bool :=
  r.fields.contains f.outputName &&
    (r.structs.isEmpty || (r.structs.contains owner && f.flattenedAttribute?.isNone))

def apply (r : OverrideRule) (f : Field) : Field :=
  { f with optionality := r.optionality, planHint := r.planHint <|> f.planHint }

end OverrideRule

/-- The rules, in the order in which they apply. -/
def overrideRules : List OverrideRule :=
  [{ fields := ["uuid", "id", "key"], structs := []
     optionality := .computed, planHint := some .keepPriorState },
   { fields := ["name"], structs := ["StoragePool", "Domain", "Network", "StorageVolume"]
     optionality := .required, planHint := some .requiresReplace },
   { fields := ["type"], structs := ["StoragePool", "Domain", "Network"]
     optionality := .required, planHint := some .requiresReplace },
   { fields := ["capacity"], structs := ["StoragePool"]
     optionality := .computed, planHint := some .keepPriorState },
   { fields := ["allocation", "available"], structs := ["StoragePool"]
     optionality := .computed, planHint := none },
   { fields := ["capacity", "allocation", "physical"], structs := ["StorageVolume"]
     optionality := .computed, planHint := none }]

def overrideField (owner : String) (f : Field) : Field :=
  overrideRules.foldl (fun f r => if r.matchesField owner f then r.apply f else f) f

/-- Applies the rules to the fields of a struct. -/
def applyOverrides (owner : String) (fields : List Field) : List Field :=
  fields.map (overrideField owner)

end RecordSchema.Reflection
