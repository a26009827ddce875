import Mathlib.Data.List.Basic
import RecordSchema.Generation.Path

/-!
# Positions along chains

The position that a chain of fields leads to.  An output path is the path it starts with and the
output names on the way, each after a dot; as long as no name has a dot in it, the names can be read
off the path.
-/

namespace RecordSchema.Generation

open Schema (Field)

variable {p : Position} {f : Field} {chain chain' : List Field} {names names' : List String}

/-! ## Dotted names -/

/-- The names one after the other, each after a dot. -/
def dotted (names : List String) : List Char := names.flatMap fun n => '.' :: n.toList

/-- What follows a name, if anything, starts with a dot. -/
theorem takeWhile_name_dotted {name : String} (h : '.' ∉ name.toList) (names : List String) :
    (name.toList ++ dotted names).takeWhile (· != '.') = name.toList := by
  have hrest : (dotted names).takeWhile (· != '.') = [] := by
    cases names with
    | nil => rfl
    | cons n rest => rfl
  rw [List.takeWhile_append_of_pos fun c hc => ?_, hrest, List.append_nil]
  exact bne_iff_ne.2 fun hdot => h (hdot ▸ hc)

/-- Names without dots can be read off. -/
theorem dotted_injective (h : ∀ n ∈ names, '.' ∉ n.toList) (h' : ∀ n ∈ names', '.' ∉ n.toList)
    (heq : dotted names = dotted names') : names = names' := by
  induction names generalizing names' with
  | nil =>
      cases names' with
      | nil => rfl
      | cons n' rest' => cases heq
  | cons n rest ih =>
      cases names' with
      | nil => cases heq
      | cons n' rest' =>
          obtain ⟨hn, hrest⟩ := List.forall_mem_cons.1 h
          obtain ⟨hn', hrest'⟩ := List.forall_mem_cons.1 h'
          have htail : n.toList ++ dotted rest = n'.toList ++ dotted rest' := (List.cons.inj heq).2
          have hname : n.toList = n'.toList := by
            rw [← takeWhile_name_dotted hn rest, htail, takeWhile_name_dotted hn' rest']
          rw [hname] at htail
          rw [String.toList_inj.1 hname, ih hrest hrest' (List.append_cancel_left htail)]

/-! ## Positions -/

namespace Position

/-- The position below `p` that a chain leads to. -/
def along (p : Position) (chain : List Field) : Position := chain.foldl below p

@[simp] theorem along_nil (p : Position) : p.along [] = p := rfl

@[simp] theorem along_cons (p : Position) (f : Field) (chain : List Field) :
    p.along (f :: chain) = (p.below f).along chain := rfl

theorem along_append (p : Position) (chain chain' : List Field) :
    p.along (chain ++ chain') = (p.along chain).along chain' := List.foldl_append

theorem along_concat (p : Position) (chain : List Field) (f : Field) :
    p.along (chain ++ [f]) = (p.along chain).below f := along_append p chain [f]

theorem toList_path_below (p : Position) (f : Field) :
    (p.below f).path.toList = p.path.toList ++ '.' :: f.outputName.toList := by
  simp [below, outputPath, toString]

theorem toList_path_along (p : Position) (chain : List Field) :
    (p.along chain).path.toList = p.path.toList ++ dotted (chain.map (·.outputName)) := by
  induction chain generalizing p with
  | nil => exact (List.append_nil _).symm
  | cons f rest ih =>
      rw [along_cons, ih, toList_path_below, List.append_assoc]
      rfl

/-- The path of a chain of names without dots tells the names. -/
theorem outputNames_eq_of_path_eq (h : ∀ f ∈ chain, '.' ∉ f.outputName.toList)
    (h' : ∀ f ∈ chain', '.' ∉ f.outputName.toList)
    (hpath : (p.along chain).path = (p.along chain').path) :
    chain.map (·.outputName) = chain'.map (·.outputName) := by
  refine dotted_injective (List.forall_mem_map.2 h) (List.forall_mem_map.2 h') ?_
  have hlist := congrArg String.toList hpath
  rw [toList_path_along, toList_path_along] at hlist
  exact List.append_cancel_left hlist

theorem path_below_ne_empty (p : Position) (f : Field) : (p.below f).path ≠ "" := by
  intro h
  have hlist := toList_path_below p f
  rw [h] at hlist
  simp at hlist

theorem xmlPath_below_ne_empty (p : Position) (f : Field) : (p.below f).xmlPath ≠ "" := by
  intro h
  rw [below, Generation.xmlPath] at h
  simp only at h
  split at h
  · simp [toString] at h
  · split at h <;> simp [toString] at h

end Position

end RecordSchema.Generation
