/-!
# Cycle guard

The names under analysis, outermost first.  A reference to one of them leads back, and the trace
shows the way around.
-/

namespace RecordSchema.Reflection

def traceSeparator : String := " → "

structure CycleGuard where
  names : List String := []
deriving DecidableEq, Repr

namespace CycleGuard

def empty : CycleGuard := {}

def push (g : CycleGuard) (name : String) : CycleGuard := ⟨g.names ++ [name]⟩

/-- The guard without its innermost name. -/
def popped (g : CycleGuard) : CycleGuard := ⟨g.names.dropLast⟩

/-- The innermost name and the guard without it. -/
def pop? (g : CycleGuard) : Option (String × CycleGuard) :=
  g.names.getLast?.map (·, g.popped)

def contains (g : CycleGuard) (name : String) : Bool := g.names.contains name

def depth (g : CycleGuard) : Nat := g.names.length

def isEmpty (g : CycleGuard) : Bool := g.names.isEmpty

/-- The names from the first `target` on, and `target` again. -/
def cycleTo (g : CycleGuard) (target : String) : List String :=
  g.names.dropWhile (· != target) ++ [target]

def trace (g : CycleGuard) (target : String) : String :=
  traceSeparator.intercalate (g.cycleTo target)

@[simp] theorem names_push (g : CycleGuard) (name : String) :
    (g.push name).names = g.names ++ [name] := rfl

@[simp] theorem popped_push (g : CycleGuard) (name : String) : (g.push name).popped = g := by
  rw [popped, names_push, List.dropLast_concat]

theorem contains_iff (g : CycleGuard) (name : String) :
    g.contains name = true ↔ name ∈ g.names := List.contains_iff_mem

end CycleGuard

end RecordSchema.Reflection
