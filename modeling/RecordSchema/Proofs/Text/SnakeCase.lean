import Mathlib.Data.List.Chain
import RecordSchema.Proofs.Text.LetterCase
import RecordSchema.Text.SnakeCase

/-!
# What folding does to a name

Folding puts the characters of a name in lower case and sets underscores between words; known
acronyms are no exception, they are words without an underscore.  A name with no capital left is
kept, so folding twice is folding once.
-/

namespace RecordSchema.Text

/-! ## Underscores in front of capitals -/

/-- The second text is the first one in lower case, with underscores inserted in front of some of
the capitals that have a capital or small letter before them.  The character before the first text
is `prev`. -/
inductive Folds : (prev : Option Char) → List Char → List Char → Prop
  | nil {prev : Option Char} : Folds prev [] []
  | keep {prev : Option Char} {c : Char} {s out : List Char} (tail : Folds (some c) s out) :
      Folds prev (c :: s) (lower c ++ out)
  | separate {p c : Char} {s out : List Char} (hc : isUpper c = true)
      (hp : isUpper p = true ∨ isLower p = true) (tail : Folds (some c) s out) :
      Folds (some p) (c :: s) ('_' :: (lower c ++ out))

variable {c d p : Char} {prev : Option Char} {s out folded : List Char}

theorem folds_flatMap_lower (prev : Option Char) (s : List Char) :
    Folds prev s (s.flatMap lower) := by
  induction s generalizing prev with
  | nil => exact .nil
  | cons c s ih =>
      rw [List.flatMap_cons]
      exact .keep (ih (some c))

theorem cased_of_startsWord {second : Bool} {next : Option Char}
    (h : startsWord second p c next = true) :
    isUpper c = true ∧ (isUpper p = true ∨ isLower p = true) := by
  rw [startsWord, Bool.and_eq_true, Bool.or_eq_true, Bool.and_eq_true, Bool.and_eq_true] at h
  exact ⟨h.1, h.2.symm.imp_left fun hp => hp.1.1⟩

theorem folds_foldAfter (second : Bool) (p : Char) (s : List Char) :
    Folds (some p) s (foldAfter second p s) := by
  induction s generalizing second p with
  | nil => exact .nil
  | cons c s ih =>
      rw [foldAfter]
      split_ifs with hstarts
      · obtain ⟨hc, hp⟩ := cased_of_startsWord hstarts
        exact .separate hc hp (ih false c)
      · exact .keep (ih false c)

theorem folds_foldWords (s : List Char) : Folds none s (foldWords s) := by
  cases s with
  | nil => exact .nil
  | cons c s => exact .keep (folds_foldAfter true c s)

/-! ## Acronyms -/

/-- An acronym folds to its lower-case form. -/
theorem folded_of_mem_acronyms : ∀ a ∈ acronyms, a.2.toList = a.1.toList.flatMap lower := by
  decide +kernel

/-- An acronym has a capital. -/
theorem any_isUpper_of_mem_acronyms : ∀ a ∈ acronyms, a.1.toList.any isUpper = true := by
  decide +kernel

theorem of_acronym? (h : acronym? s = some folded) :
    folded = s.flatMap lower ∧ s.any isUpper = true := by
  obtain ⟨a, ha, rfl⟩ := Option.map_eq_some_iff.1 h
  have hkey := List.find?_some ha
  obtain rfl : a.1.toList = s := beq_iff_eq.1 hkey
  have hmem := List.mem_of_find?_eq_some ha
  exact ⟨folded_of_mem_acronyms a hmem, any_isUpper_of_mem_acronyms a hmem⟩

theorem pluralStem?_eq_some {stem : List Char} (h : pluralStem? s = some stem) :
    s = stem ++ ['s'] := by
  rw [pluralStem?] at h
  split_ifs at h with hlast
  obtain rfl := Option.some.inj h
  exact (List.dropLast_append_getLast? 's' hlast).symm

theorem of_pluralStem? (h : (pluralStem? s).bind acronym? = some folded) :
    folded ++ ['s'] = s.flatMap lower ∧ s.any isUpper = true := by
  obtain ⟨stem, hstem, hacronym⟩ := Option.bind_eq_some_iff.1 h
  obtain ⟨rfl, hupper⟩ := of_acronym? hacronym
  have hs : lower 's' = ['s'] := by decide +kernel
  rw [pluralStem?_eq_some hstem, List.flatMap_append, List.flatMap_singleton, hs, List.any_append,
    hupper, Bool.true_or]
  exact ⟨rfl, rfl⟩

/-- A name is put in lower case and underscores are inserted, whether it is a word or has words. -/
theorem folds_foldName (s : List Char) : Folds none s (foldName s) := by
  rw [foldName]
  split
  · rename_i folded hplural
    rw [(of_pluralStem? hplural).1]
    exact folds_flatMap_lower none s
  · cases hacronym : acronym? s with
    | none => exact folds_foldWords s
    | some folded =>
        rw [Option.getD_some, (of_acronym? hacronym).1]
        exact folds_flatMap_lower none s

/-! ## What is left without the underscores -/

/-- The text without its underscores. -/
def withoutUnderscores (s : String) : String := String.ofList (s.toList.filter (· != '_'))

theorem Folds.filter_eq (h : Folds prev s out) :
    out.filter (· != '_') = (s.flatMap lower).filter (· != '_') := by
  induction h with
  | nil => rfl
  | keep _ ih => rw [List.flatMap_cons, List.filter_append, List.filter_append, ih]
  | separate _ _ _ ih =>
      rw [List.filter_cons_of_neg (by decide), List.flatMap_cons, List.filter_append,
        List.filter_append, ih]

theorem Folds.mem_cases (h : Folds prev s out) (hd : d ∈ out) :
    d = '_' ∨ ∃ c ∈ s, d ∈ lower c := by
  by_cases hunderscore : d = '_'
  · exact .inl hunderscore
  · have hmem : d ∈ out.filter (· != '_') := by simp [hd, hunderscore]
    rw [h.filter_eq] at hmem
    exact .inr (List.mem_flatMap.1 (List.mem_of_mem_filter hmem))

/-! ## Where underscores stand -/

/-- Not both characters are underscores. -/
def NotBoth (c d : Char) : Prop := ¬(c = '_' ∧ d = '_')

theorem isChain_append_of_notMem (h : '_' ∉ s) (hout : out.IsChain NotBoth) :
    (s ++ out).IsChain NotBoth := by
  induction s with
  | nil => exact hout
  | cons c s ih =>
      rw [List.mem_cons, not_or] at h
      rw [List.cons_append, List.isChain_cons]
      exact ⟨fun d _ hboth => h.1 hboth.1.symm, ih h.2⟩

theorem not_infix_of_isChain (h : out.IsChain NotBoth) : ¬['_', '_'] <:+: out := by
  intro hinfix
  have hpair := h.infix hinfix
  rw [List.isChain_pair] at hpair
  exact hpair ⟨rfl, rfl⟩

theorem head?_lower_append_ne (hc : c ≠ '_') (out : List Char) :
    (lower c ++ out).head? ≠ some '_' := by
  rw [List.head?_append_of_ne_nil _ (lower_ne_nil c)]
  intro hhead
  exact hc (underscore_mem_lower_iff.1 (List.mem_of_mem_head? hhead))

theorem getLast?_lower_append_ne (hc : c ≠ '_') (hout : out.getLast? ≠ some '_') :
    (lower c ++ out).getLast? ≠ some '_' := by
  rw [List.getLast?_append]
  intro hlast
  rcases Option.or_eq_some_iff.1 hlast with hlast | ⟨-, hlast⟩
  · exact hout hlast
  · exact hc (underscore_mem_lower_iff.1 (List.mem_of_mem_getLast? hlast))

theorem Folds.head?_ne (h : Folds none s out) (hs : '_' ∉ s) : out.head? ≠ some '_' := by
  cases h with
  | nil => simp
  | keep tail => exact head?_lower_append_ne (List.ne_of_not_mem_cons hs).symm _

theorem Folds.getLast?_ne (h : Folds prev s out) (hs : '_' ∉ s) : out.getLast? ≠ some '_' := by
  induction h with
  | nil => simp
  | keep _ ih =>
      rw [List.mem_cons, not_or] at hs
      exact getLast?_lower_append_ne (Ne.symm hs.1) (ih hs.2)
  | @separate p c _ _ _ _ _ ih =>
      rw [List.mem_cons, not_or] at hs
      rw [List.getLast?_cons_of_ne_nil (List.append_ne_nil_of_left_ne_nil (lower_ne_nil c) _)]
      exact getLast?_lower_append_ne (Ne.symm hs.1) (ih hs.2)

theorem Folds.isChain (h : Folds prev s out) (hs : '_' ∉ s) : out.IsChain NotBoth := by
  induction h with
  | nil => exact .nil
  | keep _ ih =>
      rw [List.mem_cons, not_or] at hs
      exact isChain_append_of_notMem (mt underscore_mem_lower_iff.1 (Ne.symm hs.1)) (ih hs.2)
  | separate _ _ _ ih =>
      rw [List.mem_cons, not_or] at hs
      have hc := Ne.symm hs.1
      refine List.isChain_cons.2 ⟨fun d hd hboth => ?_, ?_⟩
      · exact head?_lower_append_ne hc _ (hboth.2 ▸ hd)
      · exact isChain_append_of_notMem (mt underscore_mem_lower_iff.1 hc) (ih hs.2)

/-! ## Folding -/

theorem toList_snakeCase (s : String) : (snakeCase s).toList = foldName s.toList := by
  rw [snakeCase, String.toList_ofList]

theorem folds_snakeCase (s : String) : Folds none s.toList (snakeCase s).toList := by
  rw [toList_snakeCase]
  exact folds_foldName s.toList

/-- Folding does no more than put a name in lower case and insert underscores: without the
underscores nothing else has changed, and what is inserted stands in front of a capital behind a
cased letter.  So a name that has no underscore gets none at its ends and none next to another. -/
theorem snakeCase_folds (s : String) :
    withoutUnderscores (snakeCase s) = withoutUnderscores (lowerText s) ∧
    Folds none s.toList (snakeCase s).toList ∧
    ('_' ∉ s.toList →
      (snakeCase s).toList.head? ≠ some '_' ∧ (snakeCase s).toList.getLast? ≠ some '_' ∧
        ¬['_', '_'] <:+: (snakeCase s).toList) := by
  have hfolds := folds_snakeCase s
  refine ⟨?_, hfolds, fun hs => ⟨?_, ?_, ?_⟩⟩
  · rw [withoutUnderscores, hfolds.filter_eq, withoutUnderscores, lowerText, String.toList_ofList]
  · exact hfolds.head?_ne hs
  · exact hfolds.getLast?_ne hs
  · exact not_infix_of_isChain (hfolds.isChain hs)

/-- The acronym within the name is a word between two underscores. -/
theorem snakeCase_folds_model :
    '_' ∉ "DomainCPUModel".toList ∧ snakeCase "DomainCPUModel" = "domain_cpu_model" ∧
      withoutUnderscores "domain_cpu_model" = withoutUnderscores (lowerText "DomainCPUModel") ∧
      "domain_cpu_model".toList.head? ≠ some '_' ∧
      "domain_cpu_model".toList.getLast? ≠ some '_' ∧
      ¬['_', '_'] <:+: "domain_cpu_model".toList := by
  have hplain : '_' ∉ "DomainCPUModel".toList := by decide
  have hfold : snakeCase "DomainCPUModel" = "domain_cpu_model" := by decide +kernel
  obtain ⟨hletters, -, hunderscores⟩ := snakeCase_folds "DomainCPUModel"
  rw [hfold] at hletters hunderscores
  exact ⟨hplain, hfold, hletters, hunderscores hplain⟩

/-! ## Folding twice -/

theorem foldAfter_of_no_upper (second : Bool) (p : Char)
    (h : ∀ c ∈ s, isUpper c = false ∧ lower c = [c]) : foldAfter second p s = s := by
  induction s generalizing second p with
  | nil => rfl
  | cons c s ih =>
      obtain ⟨⟨hc, hlower⟩, hs⟩ := List.forall_mem_cons.1 h
      rw [foldAfter, startsWord, hc, hlower, ih false c hs]
      rfl

/-- A name without capitals is neither an acronym nor one in the plural, and it has one word. -/
theorem foldName_of_no_upper (h : ∀ c ∈ s, isUpper c = false ∧ lower c = [c]) :
    foldName s = s := by
  have hupper : ¬s.any isUpper = true := by
    rw [List.any_eq_true]
    rintro ⟨c, hc, hupper⟩
    exact Bool.false_ne_true ((h c hc).1.symm.trans hupper)
  have hplural : (pluralStem? s).bind acronym? = none :=
    Option.eq_none_iff_forall_ne_some.2 fun folded hsome => hupper (of_pluralStem? hsome).2
  have hacronym : acronym? s = none :=
    Option.eq_none_iff_forall_ne_some.2 fun folded hsome => hupper (of_acronym? hsome).2
  rw [foldName, hplural, hacronym, Option.getD_none]
  cases s with
  | nil => rfl
  | cons c s =>
      obtain ⟨⟨-, hlower⟩, hs⟩ := List.forall_mem_cons.1 h
      rw [foldWords, hlower, foldAfter_of_no_upper true c hs]
      rfl

/-- No capital is left of the text in lower case. -/
def LeavesNoUpper (s : String) : Prop := ∀ c ∈ s.toList, ∀ d ∈ lower c, isUpper d = false

/-- Folding twice is folding once, for all ASCII names and all others whose lower-case form has no
capital. -/
theorem snakeCase_idem (s : String) :
    ((∀ c ∈ s.toList, c.toNat < 128) → LeavesNoUpper s) ∧
    (LeavesNoUpper s → snakeCase (snakeCase s) = snakeCase s) := by
  refine ⟨fun hascii c hc d hd => isUpper_of_mem_lower_of_lt (hascii c hc) hd, fun h => ?_⟩
  have hfolded : foldName (snakeCase s).toList = (snakeCase s).toList := by
    refine foldName_of_no_upper fun d hd => ?_
    rcases (folds_snakeCase s).mem_cases hd with rfl | ⟨c, hc, hd⟩
    · exact ⟨by decide +kernel, lower_underscore⟩
    · exact ⟨h c hc d hd, lower_of_mem_lower hd⟩
  rw [snakeCase, hfolded, String.ofList_toList]

/-- The plural of an acronym is no longer one when it is folded. -/
theorem snakeCase_idem_vcpus :
    (∀ c ∈ "VCPUs".toList, c.toNat < 128) ∧ snakeCase "VCPUs" = "vcpus" ∧
      snakeCase "vcpus" = "vcpus" := by
  have hascii : ∀ c ∈ "VCPUs".toList, c.toNat < 128 := by simp
  have hfold : snakeCase "VCPUs" = "vcpus" := by decide +kernel
  obtain ⟨hupper, hidem⟩ := snakeCase_idem "VCPUs"
  have htwice := hidem (hupper hascii)
  rw [hfold] at htwice
  exact ⟨hascii, hfold, htwice⟩

-- a capital that has no small form is behind a small letter only when the first fold is done
example : snakeCase (snakeCase "A𝐀") ≠ snakeCase "A𝐀" := by decide +kernel

end RecordSchema.Text
