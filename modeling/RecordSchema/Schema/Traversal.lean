import RecordSchema.Schema.Graph

/-!
# Traversal

The structs that are reached from some starting points, depth first and each once, with a label that
tells how each was first reached.
-/

namespace RecordSchema.Schema.Graph

variable {α : Type}

/-- The places that are not in `seen`. -/
def unseen (g : Graph) (seen : List StructId) : List StructId :=
  (List.range g.size).filter fun id => !seen.contains id

theorem unseen_cons (g : Graph) (id : StructId) (seen : List StructId) :
    g.unseen (id :: seen) = (g.unseen seen).filter (· != id) := by
  simp only [unseen, List.filter_filter]
  refine List.filter_congr fun a _ => ?_
  rw [List.contains_cons, Bool.not_or]
  rfl

theorem unseen_cons_le (g : Graph) (id : StructId) (seen : List StructId) :
    (g.unseen (id :: seen)).length ≤ (g.unseen seen).length := by
  rw [unseen_cons]
  exact List.length_filter_le ..

theorem unseen_cons_lt {g : Graph} {id : StructId} {seen : List StructId} {s : Struct}
    (hs : g.get? id = some s) (hid : ¬id ∈ seen) :
    (g.unseen (id :: seen)).length < (g.unseen seen).length := by
  rw [unseen_cons]
  refine List.length_filter_lt_length_iff_exists.2 ⟨id, List.mem_filter.2 ⟨?_, by simpa⟩, by simp⟩
  exact List.mem_range.2 (List.getElem?_eq_some_iff.1 hs).1

/-- The first visits of the walk that still has to visit `todo` and has visited `seen`. A struct's
own successors come before what was to be visited later. -/
def firstVisits (g : Graph) (next : Struct → α → List (StructId × α)) (seen : List StructId)
    (todo : List (StructId × α)) : List (StructId × α) :=
  match todo with
  | [] => []
  | (id, label) :: rest =>
    if _hid : id ∈ seen then g.firstVisits next seen rest
    else
      match _hs : g.get? id with
      | none => (id, label) :: g.firstVisits next (id :: seen) rest
      | some s => (id, label) :: g.firstVisits next (id :: seen) (next s label ++ rest)
termination_by ((g.unseen seen).length, todo.length)
decreasing_by
  · exact Prod.Lex.right _ (by simp)
  · have := unseen_cons_le g id seen
    rcases Nat.lt_or_eq_of_le this with h | h
    · exact Prod.Lex.left _ _ h
    · rw [h]
      exact Prod.Lex.right _ (by simp)
  · exact Prod.Lex.left _ _ (unseen_cons_lt _hs _hid)

/-- The structs a struct opens. -/
def nestedTargets (s : Struct) : List StructId := s.fields.filterMap Field.nestedTarget?

/-- The structs that are reached from `roots` through nested links, in the order of first visits. -/
def reached (g : Graph) (roots : List StructId) : List StructId :=
  (g.firstVisits (fun s () => (nestedTargets s).map (·, ())) [] (roots.map (·, ()))).map Prod.fst

end RecordSchema.Schema.Graph
