import RecordSchema.Schema.Graph
import Std.Data.TreeSet

/-!
# Walks along paths

Nodes are visited depth first.  A node whose path was met before is passed over, and so is what is
below it.  In a graph without cycles no chain of structs is longer than the graph is large, so a
walk as deep as that leaves nothing out.
-/

namespace RecordSchema.Schema

/-- What is below a node of a walk, and the path that tells a node from others. -/
structure PathWalk (α : Type) where
  path : α → String
  below : α → List α

namespace PathWalk

/-- The nodes visited so far. -/
structure Visited (α : Type) where
  /-- Latest first. -/
  nodes : List α := []
  paths : Std.TreeSet String := {}

variable {α : Type}

/-- Visits the nodes of `todo` and what is below them, no chain being longer than `depth`. -/
def visit (w : PathWalk α) (depth : Nat) (todo : List α) (v : Visited α) : Visited α :=
  match depth, todo with
  | 0, _ | _, [] => v
  | depth + 1, a :: rest =>
    if v.paths.contains (w.path a) then w.visit (depth + 1) rest v
    else
      let here := { nodes := a :: v.nodes, paths := v.paths.insert (w.path a) }
      w.visit (depth + 1) rest (w.visit depth (w.below a) here)
termination_by (depth, todo.length)

/-- The nodes that are visited from `roots` on, in the order of their visits. -/
def visits (w : PathWalk α) (depth : Nat) (roots : List α) : List α :=
  (w.visit depth roots {}).nodes.reverse

end PathWalk

end RecordSchema.Schema
