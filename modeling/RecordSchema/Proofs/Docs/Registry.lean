import Mathlib.Data.List.Basic
import Mathlib.Data.List.Perm.Basic
import RecordSchema.Docs.File

/-!
# What a registry holds

Documents are added to a registry entry by entry, and the first entry that has no path or a known
one ends that.  A registry is a list in the order of paths, so that it does not show in which order
it was filled, and it stands for two maps, of entries and of files, that have the same keys.
-/

namespace RecordSchema.Docs

/-- What an entry of a file is kept as. -/
def DocEntry.documented (source : String) (entry : DocEntry) : Documented :=
  ⟨{ entry with path := Text.trim entry.path }, source⟩

namespace DocRegistry

variable {r r' : DocRegistry} {d : Documented} {items : List Documented} {entry : DocEntry}
  {entries : List DocEntry} {source path : String} {index : Nat} {e : DocError}

/-! ## Places -/

theorem place_perm (d : Documented) (items : List Documented) :
    (place d items).Perm (d :: items) := by
  induction items with
  | nil => exact .refl _
  | cons first rest ih =>
      rw [place]
      split
      · exact .refl _
      · exact (ih.cons first).trans (.swap d first rest)

/-- A path of its own finds the item, every other path what it found before. -/
theorem find?_place (hnew : ∀ x ∈ items, x.entry.path ≠ d.entry.path) (path : String) :
    (place d items).find? (·.entry.path == path) =
      if d.entry.path = path then some d else items.find? (·.entry.path == path) := by
  induction items with
  | nil => by_cases h : d.entry.path = path <;> simp [place, h]
  | cons first rest ih =>
      obtain ⟨hfirst, hrest⟩ := List.forall_mem_cons.1 hnew
      rw [place]
      split
      · by_cases h : d.entry.path = path <;> simp [List.find?_cons, h]
      · rw [List.find?_cons, ih hrest, List.find?_cons]
        by_cases h : d.entry.path = path
        · have hne : (first.entry.path == path) = false :=
            beq_eq_false_iff_ne.2 fun heq => hfirst (heq.trans h.symm)
          simp [h, hne]
        · simp [h]

/-- The items are in the order of their paths, and no path is there twice. -/
def Sorted (items : List Documented) : Prop := items.Pairwise fun a b => a.entry.path < b.entry.path

theorem Sorted.place (h : Sorted items) (hnew : ∀ x ∈ items, x.entry.path ≠ d.entry.path) :
    Sorted (place d items) := by
  induction h with
  | nil => exact List.pairwise_singleton ..
  | @cons first rest hlt hrest ih =>
      obtain ⟨hfirst, hnew⟩ := List.forall_mem_cons.1 hnew
      rw [DocRegistry.place]
      split
      · rename_i hbefore
        refine List.pairwise_cons.2 ⟨?_, hrest.cons hlt⟩
        exact List.forall_mem_cons.2 ⟨hbefore, fun x hx => String.lt_trans hbefore (hlt x hx)⟩
      · rename_i hbehind
        refine List.pairwise_cons.2 ⟨fun x hx => ?_, ih hnew⟩
        rcases List.mem_cons.1 ((place_perm d rest).mem_iff.1 hx) with rfl | hx
        · by_contra hnot
          exact hfirst (String.le_antisymm (String.not_lt.1 hbehind) (String.not_lt.1 hnot))
        · exact hlt x hx

/-- The order of the items does not show how they came in. -/
theorem Sorted.eq_of_perm {items' : List Documented} (h : Sorted items) (h' : Sorted items')
    (hperm : items.Perm items') : items = items' :=
  hperm.eq_of_pairwise (fun _ _ _ _ hlt hgt => absurd hgt (String.lt_asymm hlt)) h h'

/-! ## One entry -/

theorem mem_paths_iff : path ∈ r.paths ↔ ∃ x ∈ r.items, x.entry.path = path := List.mem_map

theorem contains_iff_mem_paths : r.contains path = true ↔ path ∈ r.paths := by
  rw [contains, find?, List.find?_isSome, mem_paths_iff]
  simp

/-- The registry with one more item. -/
def adding (r : DocRegistry) (d : Documented) : DocRegistry := ⟨place d r.items⟩

theorem insert_of_notMem (h : entry.path ∉ r.paths) (source : String) :
    r.insert entry source = .ok (r.adding ⟨entry, source⟩) := by
  rw [insert, if_neg fun hcontains => h (contains_iff_mem_paths.1 hcontains)]
  rfl

theorem insert_of_mem (h : entry.path ∈ r.paths) (source : String) :
    r.insert entry source = .error (.duplicatePath entry.path source) := by
  rw [insert, if_pos (contains_iff_mem_paths.2 h)]

theorem insert_eq_ok_iff :
    r.insert entry source = .ok r' ↔ entry.path ∉ r.paths ∧ r' = r.adding ⟨entry, source⟩ := by
  by_cases h : entry.path ∈ r.paths
  · rw [insert_of_mem h]
    simp [h]
  · rw [insert_of_notMem h, Except.ok.injEq]
    simp [h, eq_comm]

theorem items_adding_perm (r : DocRegistry) (d : Documented) :
    (r.adding d).items.Perm (r.items ++ [d]) :=
  (place_perm d r.items).trans (List.perm_append_singleton d r.items).symm

theorem mem_paths_adding_iff :
    path ∈ (r.adding d).paths ↔ path = d.entry.path ∨ path ∈ r.paths := by
  rw [paths, adding, ((place_perm d r.items).map _).mem_iff, List.map_cons, List.mem_cons, paths]

theorem find?_adding (h : d.entry.path ∉ r.paths) (path : String) :
    (r.adding d).find? path = if d.entry.path = path then some d else r.find? path :=
  find?_place (fun _ hx heq => h (mem_paths_iff.2 ⟨_, hx, heq⟩)) path

/-! ## The entries of a file -/

/-- What may be added to a registry: paths that are there, once and nowhere else. -/
structure Fresh (r : DocRegistry) (paths : List String) : Prop where
  named : ∀ path ∈ paths, path ≠ ""
  unknown : ∀ path ∈ paths, path ∉ r.paths
  nodup : paths.Nodup

theorem fresh_nil (r : DocRegistry) : r.Fresh [] := ⟨by simp, by simp, List.nodup_nil⟩

/-- The paths of what is added first are fresh, and the others are fresh behind them. -/
theorem fresh_append_iff {front back : List String} {added : List Documented}
    (hadded : added.map (·.entry.path) = front) (hperm : r'.items.Perm (r.items ++ added)) :
    r.Fresh (front ++ back) ↔ r.Fresh front ∧ r'.Fresh back := by
  have hpaths (path : String) : path ∈ r'.paths ↔ path ∈ r.paths ∨ path ∈ front := by
    rw [paths, (hperm.map _).mem_iff, List.map_append, hadded, List.mem_append, paths]
  constructor
  · rintro ⟨hnamed, hunknown, hnodup⟩
    obtain ⟨hnamed, hnamed'⟩ := List.forall_mem_append.1 hnamed
    obtain ⟨hunknown, hunknown'⟩ := List.forall_mem_append.1 hunknown
    obtain ⟨hnodup, hnodup', hdisjoint⟩ := List.nodup_append.1 hnodup
    refine ⟨⟨hnamed, hunknown, hnodup⟩, hnamed', fun path hpath hmem => ?_, hnodup'⟩
    rcases (hpaths path).1 hmem with hmem | hmem
    · exact hunknown' path hpath hmem
    · exact hdisjoint path hmem path hpath rfl
  · rintro ⟨⟨hnamed, hunknown, hnodup⟩, hnamed', hunknown', hnodup'⟩
    refine ⟨List.forall_mem_append.2 ⟨hnamed, hnamed'⟩, List.forall_mem_append.2 ⟨hunknown, ?_⟩,
      List.nodup_append.2 ⟨hnodup, hnodup', ?_⟩⟩
    · exact fun path hpath hmem => hunknown' path hpath ((hpaths path).2 (.inl hmem))
    · rintro path hfront _ hback rfl
      exact hunknown' path hback ((hpaths path).2 (.inr hfront))

theorem fresh_cons_iff {paths : List String} : r.Fresh (d.entry.path :: paths) ↔
    d.entry.path ≠ "" ∧ d.entry.path ∉ r.paths ∧ (r.adding d).Fresh paths := by
  have hone : r.Fresh [d.entry.path] ↔ d.entry.path ≠ "" ∧ d.entry.path ∉ r.paths := by
    constructor
    · rintro ⟨hnamed, hunknown, -⟩
      exact ⟨hnamed _ (List.mem_singleton_self _), hunknown _ (List.mem_singleton_self _)⟩
    · rintro ⟨hnamed, hunknown⟩
      exact ⟨by simpa, by simpa, by simp⟩
  rw [← List.singleton_append, fresh_append_iff (List.map_singleton ..) (items_adding_perm r d),
    hone, and_assoc]

/-- The entry at `index` is refused. -/
structure Refuses (r : DocRegistry) (source : String) (index : Nat) (entry : DocEntry)
    (e : DocError) : Prop where
  blank : Text.trim entry.path = "" → e = .missingPath source index
  known : Text.trim entry.path ≠ "" →
    Text.trim entry.path ∈ r.paths ∧ e = .duplicatePath (Text.trim entry.path) source

/-- An entry is refused, which ends the file, or it is new, and the others are added behind it. -/
theorem addFrom_cons (r : DocRegistry) (source : String) (index : Nat) (entry : DocEntry) :
    (∃ e, r.Refuses source index entry e ∧
      ∀ rest, r.addFrom source index (entry :: rest) = (.error e, r)) ∨
    Text.trim entry.path ≠ "" ∧ Text.trim entry.path ∉ r.paths ∧
      ∀ rest, r.addFrom source index (entry :: rest) =
        (r.adding (entry.documented source)).addFrom source (index + 1) rest := by
  by_cases hblank : Text.trim entry.path = ""
  · refine .inl ⟨_, ⟨fun _ => rfl, fun hnamed => absurd hblank hnamed⟩, fun rest => ?_⟩
    rw [addFrom, if_pos (String.isEmpty_iff.2 hblank)]
  · have hnamed : ¬(Text.trim entry.path).isEmpty = true := mt String.isEmpty_iff.1 hblank
    by_cases hmem : Text.trim entry.path ∈ r.paths
    · have hentry : ({ entry with path := Text.trim entry.path } : DocEntry).path ∈ r.paths := hmem
      refine .inl ⟨_, ⟨fun h => absurd h hblank, fun _ => ⟨hmem, rfl⟩⟩, fun rest => ?_⟩
      rw [addFrom, if_neg hnamed, insert_of_mem hentry]
    · have hentry : ({ entry with path := Text.trim entry.path } : DocEntry).path ∉ r.paths := hmem
      refine .inr ⟨hblank, hmem, fun rest => ?_⟩
      rw [addFrom, if_neg hnamed, insert_of_notMem hentry]
      rfl

/-- Adding entries succeeds just when their paths are fresh. -/
theorem addFrom_eq_ok_iff : (r.addFrom source index entries).1 = .ok () ↔
    r.Fresh (entries.map fun entry => Text.trim entry.path) := by
  induction entries generalizing r index with
  | nil => exact iff_of_true rfl r.fresh_nil
  | cons entry rest ih =>
      have hcons (paths : List String) : r.Fresh (Text.trim entry.path :: paths) ↔
          Text.trim entry.path ≠ "" ∧ Text.trim entry.path ∉ r.paths ∧
            (r.adding (entry.documented source)).Fresh paths :=
        fresh_cons_iff (d := entry.documented source)
      rw [List.map_cons, hcons]
      rcases r.addFrom_cons source index entry with ⟨e, hrefuses, heq⟩ | ⟨hnamed, hunknown, heq⟩
      · rw [heq]
        refine iff_of_false (fun h => by cases h) ?_
        rintro ⟨hnamed, hunknown, -⟩
        exact hunknown (hrefuses.known hnamed).1
      · rw [heq, ih]
        exact ⟨fun h => ⟨hnamed, hunknown, h⟩, fun h => h.2.2⟩

/-- What succeeds adds the entries and nothing else. -/
theorem items_addFrom_perm (h : (r.addFrom source index entries).1 = .ok ()) :
    (r.addFrom source index entries).2.items.Perm
      (r.items ++ entries.map (DocEntry.documented source)) := by
  induction entries generalizing r index with
  | nil =>
      rw [addFrom, List.map_nil, List.append_nil]
  | cons entry rest ih =>
      rcases r.addFrom_cons source index entry with ⟨e, -, heq⟩ | ⟨-, -, heq⟩
      · rw [heq] at h
        cases h
      · rw [heq] at h ⊢
        refine (ih h).trans ?_
        rw [List.map_cons, ← List.singleton_append, ← List.append_assoc]
        exact (items_adding_perm ..).append_right _

/-- What is in a registry stays as it is. -/
theorem find?_addFrom (hpath : path ∈ r.paths) :
    (r.addFrom source index entries).2.find? path = r.find? path := by
  induction entries generalizing r index with
  | nil => rw [addFrom]
  | cons entry rest ih =>
      rcases r.addFrom_cons source index entry with ⟨e, -, heq⟩ | ⟨-, hunknown, heq⟩
      · rw [heq]
      · have hne : Text.trim entry.path ≠ path := by
          rintro rfl
          exact hunknown hpath
        rw [heq, ih (mem_paths_adding_iff.2 (.inr hpath)),
          find?_adding (d := entry.documented source) hunknown]
        exact if_neg hne

/-- What fails has added all entries in front of one that is refused. -/
theorem exists_refuses_of_addFrom (h : r.addFrom source index entries = (.error e, r')) :
    ∃ before entry behind, entries = before ++ entry :: behind ∧
      r.addFrom source index before = (.ok (), r') ∧
      r'.Refuses source (index + before.length) entry e := by
  induction entries generalizing r index with
  | nil =>
      rw [addFrom] at h
      cases h
  | cons entry rest ih =>
      rcases r.addFrom_cons source index entry with ⟨e, hrefuses, heq⟩ | ⟨-, -, heq⟩
      · rw [heq] at h
        cases h
        exact ⟨[], entry, rest, rfl, rfl, hrefuses⟩
      · rw [heq] at h
        obtain ⟨before, refused, behind, rfl, hbefore, hrefuses⟩ := ih h
        refine ⟨entry :: before, refused, behind, rfl, ?_, ?_⟩
        · rw [heq, hbefore]
        · rwa [List.length_cons, Nat.add_comm before.length, ← Nat.add_assoc]

/-- The entries of a file fail behind `before`. -/
structure FailsBehind (r : DocRegistry) (source : String) (entries before : List DocEntry)
    (e : DocError) (r' : DocRegistry) : Prop where
  refuses : ∃ entry behind, entries = before ++ entry :: behind ∧
    r'.Refuses source before.length entry e
  earlier : r.addEntries source before = (.ok (), r')
  /-- The entries before the one that is refused are added, and nothing else. -/
  added : r'.items.Perm (r.items ++ before.map (DocEntry.documented source))
  /-- What is in the registry stays. -/
  kept : ∀ path ∈ r.paths, r'.entry? path = r.entry? path ∧ r'.source? path = r.source? path

theorem exists_failsBehind (h : r.addEntries source entries = (.error e, r')) :
    ∃ before, r.FailsBehind source entries before e r' := by
  have hkept : ∀ path ∈ r.paths, r'.find? path = r.find? path := by
    intro path hpath
    have hfind : (r.addEntries source entries).2.find? path = r.find? path := find?_addFrom hpath
    rwa [h] at hfind
  obtain ⟨before, entry, behind, hentries, hbefore, hrefuses⟩ := exists_refuses_of_addFrom h
  rw [Nat.zero_add] at hrefuses
  have hok : (r.addFrom source 0 before).1 = .ok () := congrArg Prod.fst hbefore
  have hadded := items_addFrom_perm hok
  rw [hbefore] at hadded
  refine ⟨before, ⟨entry, behind, hentries, hrefuses⟩, hbefore, hadded, fun path hpath => ?_⟩
  rw [DocRegistry.entry?, DocRegistry.entry?, source?, source?, hkept path hpath]
  exact ⟨rfl, rfl⟩

/-! ## Two maps -/

end DocRegistry

/-- Entries and files in two maps, each by path. -/
structure Tables where
  entries : Std.ExtTreeMap String DocEntry := ∅
  sources : Std.ExtTreeMap String String := ∅

namespace Tables

variable {t : Tables} {d : Documented} {path : String}

@[ext] theorem ext {t' : Tables} (hentries : ∀ path : String, t.entries[path]? = t'.entries[path]?)
    (hsources : ∀ path : String, t.sources[path]? = t'.sources[path]?) : t = t' := by
  cases t
  cases t'
  congr 1
  · exact Std.ExtTreeMap.ext_getElem? (hentries ·)
  · exact Std.ExtTreeMap.ext_getElem? (hsources ·)

def put (t : Tables) (d : Documented) : Tables where
  entries := t.entries.insert d.entry.path d.entry
  sources := t.sources.insert d.entry.path d.source

/-- Puts an entry into both maps, unless its path is in the first one. -/
def insert (t : Tables) (entry : DocEntry) (source : String) : Except DocError Tables :=
  if t.entries.contains entry.path then .error (.duplicatePath entry.path source)
  else .ok (t.put ⟨entry, source⟩)

/-- Adds the entries of a file from the one at `index` on, up to the first fault. -/
def addFrom (source : String) (index : Nat) (t : Tables) :
    List DocEntry → Except DocError Unit × Tables
  | [] => (.ok (), t)
  | entry :: rest =>
    let entry := { entry with path := Text.trim entry.path }
    if entry.path.isEmpty then (.error (.missingPath source index), t)
    else
      match t.insert entry source with
      | .error e => (.error e, t)
      | .ok t' => t'.addFrom source (index + 1) rest

theorem getElem?_put (t : Tables) (d : Documented) (path : String) :
    (t.put d).entries[path]? = (if d.entry.path = path then some d.entry else t.entries[path]?) ∧
    (t.put d).sources[path]? = if d.entry.path = path then some d.source else t.sources[path]? := by
  simp [put, Std.ExtTreeMap.getElem?_insert]

/-- The maps have the same paths, and an entry is under its own one. -/
structure InStep (t : Tables) : Prop where
  keys : ∀ path : String, path ∈ t.entries ↔ path ∈ t.sources
  own : ∀ (path : String) (e : DocEntry), t.entries[path]? = some e → e.path = path

theorem inStep_empty : InStep {} := ⟨by simp, by simp⟩

theorem InStep.put (h : t.InStep) (d : Documented) : (t.put d).InStep where
  keys path := by simp [Tables.put, h.keys path]
  own path e he := by
    rw [(getElem?_put t d path).1] at he
    split at he
    · rename_i hpath
      rw [← Option.some.inj he, hpath]
    · exact h.own path e he

end Tables

namespace DocRegistry

variable {r r' : DocRegistry} {d : Documented} {entry : DocEntry} {source path : String}

/-- The maps that items stand for; the first item of a path counts. -/
def tablesOf (items : List Documented) : Tables := items.foldr (fun d t => t.put d) {}

def tables (r : DocRegistry) : Tables := tablesOf r.items

theorem getElem?_tablesOf (items : List Documented) (path : String) :
    (tablesOf items).entries[path]? = (items.find? (·.entry.path == path)).map (·.entry) ∧
    (tablesOf items).sources[path]? = (items.find? (·.entry.path == path)).map (·.source) := by
  induction items with
  | nil => simp [tablesOf]
  | cons d rest ih =>
      have hput := Tables.getElem?_put (tablesOf rest) d path
      rw [ih.1, ih.2] at hput
      rw [tablesOf, List.foldr_cons, ← tablesOf, hput.1, hput.2, List.find?_cons]
      by_cases h : d.entry.path = path
      · simp [h]
      · have hne : (d.entry.path == path) = false := beq_eq_false_iff_ne.2 h
        simp [h, hne]

/-- The entries and the files of a registry are looked up in its maps. -/
theorem getElem?_tables (r : DocRegistry) (path : String) :
    r.tables.entries[path]? = r.entry? path ∧ r.tables.sources[path]? = r.source? path :=
  getElem?_tablesOf r.items path

theorem contains_entries_tables (r : DocRegistry) (path : String) :
    r.tables.entries.contains path = r.contains path := by
  rw [Std.ExtTreeMap.contains_eq_isSome_getElem?, (getElem?_tables r path).1, entry?,
    Option.isSome_map, contains]

theorem tables_adding (h : d.entry.path ∉ r.paths) : (r.adding d).tables = r.tables.put d := by
  ext path : 1
  · rw [(getElem?_tables ..).1, (Tables.getElem?_put ..).1, (getElem?_tables ..).1, entry?,
      find?_adding h, entry?]
    split <;> rfl
  · rw [(getElem?_tables ..).2, (Tables.getElem?_put ..).2, (getElem?_tables ..).2, source?,
      find?_adding h, source?]
    split <;> rfl

/-- An entry is put into both maps or refused by both. -/
theorem insert_map_tables (r : DocRegistry) (entry : DocEntry) (source : String) :
    (r.insert entry source).map tables = r.tables.insert entry source := by
  rw [Tables.insert, contains_entries_tables, insert]
  split
  · rfl
  · rename_i h
    rw [← tables_adding (d := ⟨entry, source⟩) fun hmem => h (contains_iff_mem_paths.2 hmem)]
    rfl

/-- The entries of a file are put into both maps up to the same one. -/
theorem addFrom_map_tables (r : DocRegistry) (source : String) (index : Nat)
    (entries : List DocEntry) :
    (r.addFrom source index entries).map id tables = r.tables.addFrom source index entries := by
  induction entries generalizing r index with
  | nil => rfl
  | cons entry rest ih =>
      have hinsert := insert_map_tables r { entry with path := Text.trim entry.path } source
      rw [addFrom, Tables.addFrom, ← hinsert]
      dsimp only
      split
      · rfl
      · cases r.insert { entry with path := Text.trim entry.path } source with
        | error e => rfl
        | ok r' => exact ih r' (index + 1)

theorem inStep_tablesOf (items : List Documented) : (tablesOf items).InStep := by
  induction items with
  | nil => exact Tables.inStep_empty
  | cons d rest ih => exact ih.put d

/-! ## Documents -/

/-- The entries of a file. -/
structure Document where
  source : String
  entries : List DocEntry

namespace Document

def items (d : Document) : List Documented := d.entries.map (DocEntry.documented d.source)

/-- The paths of the entries without the blanks around them. -/
def paths (d : Document) : List String := d.entries.map fun entry => Text.trim entry.path

end Document

/-- Adds documents one after the other, up to the first one that fails. -/
def addDocuments (r : DocRegistry) : List Document → Except DocError Unit × DocRegistry
  | [] => (.ok (), r)
  | d :: rest =>
    match r.addEntries d.source d.entries with
    | (.ok (), r') => r'.addDocuments rest
    | (.error e, r') => (.error e, r')

/-- What is reached from an empty registry, whether or not all that is added is accepted. -/
inductive Built : DocRegistry → Prop
  | empty : Built .empty
  | insert {r r' : DocRegistry} {entry : DocEntry} {source : String} (h : Built r)
      (hinsert : r.insert entry source = .ok r') : Built r'
  | add {r : DocRegistry} (h : Built r) (d : Document) :
      Built (r.addEntries d.source d.entries).2

theorem Sorted.adding (h : Sorted r.items) (hnew : d.entry.path ∉ r.paths) :
    Sorted (r.adding d).items :=
  h.place fun _ hx heq => hnew (mem_paths_iff.2 ⟨_, hx, heq⟩)

theorem Sorted.addFrom {index : Nat} {entries : List DocEntry} (h : Sorted r.items) :
    Sorted (r.addFrom source index entries).2.items := by
  induction entries generalizing r index with
  | nil =>
      rw [DocRegistry.addFrom]
      exact h
  | cons entry rest ih =>
      rcases r.addFrom_cons source index entry with ⟨e, -, heq⟩ | ⟨-, hunknown, heq⟩
      · rw [heq]
        exact h
      · rw [heq]
        exact ih (h.adding hunknown)

theorem Built.sorted (h : Built r) : Sorted r.items := by
  induction h with
  | empty => exact List.Pairwise.nil
  | insert _ hinsert ih =>
      obtain ⟨hnew, rfl⟩ := insert_eq_ok_iff.1 hinsert
      exact ih.adding hnew
  | add _ d ih => exact ih.addFrom

theorem Built.addDocuments (h : Built r) (docs : List Document) :
    Built (r.addDocuments docs).2 := by
  induction docs generalizing r with
  | nil => exact h
  | cons d rest ih =>
      have hadd := h.add d
      rw [DocRegistry.addDocuments]
      split
      · rename_i hok
        rw [hok] at hadd
        exact ih hadd
      · rename_i hfail
        rwa [hfail] at hadd

theorem addDocuments_cons_of_ok {doc : Document}
    (h : r.addEntries doc.source doc.entries = (.ok (), r')) (rest : List Document) :
    r.addDocuments (doc :: rest) = r'.addDocuments rest := by
  rw [addDocuments, h]

/-- Adding documents succeeds just when the paths of all their entries are fresh, and then all
entries are there and nothing else. -/
theorem addDocuments_eq_ok_iff (r : DocRegistry) (docs : List Document) :
    ((r.addDocuments docs).1 = .ok () ↔ r.Fresh (docs.flatMap Document.paths)) ∧
    ((r.addDocuments docs).1 = .ok () →
      (r.addDocuments docs).2.items.Perm (r.items ++ docs.flatMap Document.items)) := by
  induction docs generalizing r with
  | nil =>
      refine ⟨iff_of_true rfl r.fresh_nil, fun _ => ?_⟩
      rw [addDocuments, List.flatMap_nil, List.append_nil]
  | cons d rest ih =>
      have hok : (r.addEntries d.source d.entries).1 = .ok () ↔ r.Fresh d.paths := addFrom_eq_ok_iff
      rw [List.flatMap_cons, List.flatMap_cons]
      rcases hadd : r.addEntries d.source d.entries with ⟨_ | ⟨⟩, r'⟩
      · rw [hadd] at hok
        have hnot : ¬r.Fresh (d.paths ++ rest.flatMap Document.paths) := by
          rintro ⟨hnamed, hunknown, hnodup⟩
          have hfresh : r.Fresh d.paths :=
            ⟨fun path hpath => hnamed path (List.mem_append_left _ hpath),
              fun path hpath => hunknown path (List.mem_append_left _ hpath),
              (List.nodup_append.1 hnodup).1⟩
          cases hok.2 hfresh
        rw [addDocuments, hadd]
        exact ⟨iff_of_false (fun h => by cases h) hnot, fun h => by cases h⟩
      · have hperm : (r.addEntries d.source d.entries).2.items.Perm (r.items ++ d.items) :=
          items_addFrom_perm (congrArg Prod.fst hadd)
        rw [hadd] at hok hperm
        have hpaths : d.items.map (·.entry.path) = d.paths := List.map_map
        rw [addDocuments_cons_of_ok hadd, fresh_append_iff hpaths hperm, (ih r').1]
        refine ⟨⟨fun h => ⟨hok.1 rfl, h⟩, And.right⟩, fun h => ?_⟩
        rw [← List.append_assoc]
        exact ((ih r').2 ((ih r').1.2 h)).trans (hperm.append_right _)

/-- Nothing is known to an empty registry. -/
theorem fresh_empty_iff {paths : List String} :
    DocRegistry.empty.Fresh paths ↔ (∀ path ∈ paths, path ≠ "") ∧ paths.Nodup := by
  constructor
  · rintro ⟨hnamed, -, hnodup⟩
    exact ⟨hnamed, hnodup⟩
  · rintro ⟨hnamed, hnodup⟩
    exact ⟨hnamed, fun _ _ hmem => absurd hmem List.not_mem_nil, hnodup⟩

/-- Documents that are accepted can come in any order. -/
theorem addDocuments_eq_of_perm {docs docs' : List Document} (hperm : docs'.Perm docs)
    (hok : (DocRegistry.empty.addDocuments docs).1 = .ok ()) :
    DocRegistry.empty.addDocuments docs' = DocRegistry.empty.addDocuments docs := by
  obtain ⟨hiff, hitems⟩ := addDocuments_eq_ok_iff .empty docs
  obtain ⟨hiff', hitems'⟩ := addDocuments_eq_ok_iff .empty docs'
  obtain ⟨hnamed, hnodup⟩ := fresh_empty_iff.1 (hiff.1 hok)
  have hpaths := hperm.flatMap_right Document.paths
  have hok' : (DocRegistry.empty.addDocuments docs').1 = .ok () :=
    hiff'.2 (fresh_empty_iff.2 ⟨fun path hpath => hnamed path (hpaths.mem_iff.1 hpath),
      hpaths.nodup_iff.2 hnodup⟩)
  refine Prod.ext (hok'.trans hok.symm) ?_
  -- sorted items with the same members are the same
  have hsame := (Built.empty.addDocuments docs').sorted.eq_of_perm
    (Built.empty.addDocuments docs).sorted
    ((hitems' hok').trans ((hperm.flatMap_right _).trans (hitems hok).symm))
  exact congrArg DocRegistry.mk hsame

/-- The file `name` of a directory holds the document `d`. -/
structure HoldsDocument (files : FileTree) (dir name : String) (d : Document) : Prop where
  source : d.source = FileTree.join dir name
  text : ∃ text, files.read d.source = .ok text ∧ entriesOfText? text = some d.entries

/-- A directory whose files can be read is loaded as the documents in them are added. -/
theorem loadFrom_eq_addDocuments {files : FileTree} {dir : String} {names : List String}
    {docs : List Document} (h : List.Forall₂ (HoldsDocument files dir) names docs)
    (r : DocRegistry) :
    loadFrom files dir r names = (r.addDocuments docs).1.map fun _ => (r.addDocuments docs).2 := by
  induction h generalizing r with
  | nil => rfl
  | @cons name d names docs hfirst _ ih =>
      obtain ⟨text, hread, hentries⟩ := hfirst.text
      rw [hfirst.source] at hread
      have hadd : r.addText text (FileTree.join dir name) = r.addEntries d.source d.entries := by
        rw [addText, hentries, hfirst.source]
      rw [loadFrom, hread]
      change (match r.addText text (FileTree.join dir name) with
        | (.ok (), r) => loadFrom files dir r names
        | (.error e, _) => .error e) = _
      rw [hadd, addDocuments]
      rcases r.addEntries d.source d.entries with ⟨_ | ⟨⟩, r'⟩
      · rfl
      · exact ih r'

/-- What holds of every registry that was filled from nothing. -/
structure Consistent (r : DocRegistry) : Prop where
  sorted : Sorted r.items
  /-- What is found is what is in the two maps. -/
  maps : ∀ path : String,
    r.entry? path = r.tables.entries[path]? ∧ r.source? path = r.tables.sources[path]?
  insert : ∀ entry source, (r.insert entry source).map tables = r.tables.insert entry source
  add : ∀ source entries,
    (r.addEntries source entries).map id tables = r.tables.addFrom source 0 entries
  inStep : r.tables.InStep

theorem Built.consistent (h : Built r) : r.Consistent where
  sorted := h.sorted
  maps path := ⟨(getElem?_tables r path).1.symm, (getElem?_tables r path).2.symm⟩
  insert := insert_map_tables r
  add source entries := addFrom_map_tables r source 0 entries
  inStep := inStep_tablesOf r.items

/-- Documents are accepted just when every entry has a path and no two have the same one, blanks
around them aside; then their entries are there and nothing else, in whatever order the documents
come.  A document that fails leaves the entries before the one that is at fault, and what was there
before it.  All the while the maps of entries and files have the same keys.  The files of a
directory are loaded in this way. -/
theorem addDocuments_registers (docs : List Document) :
    let out := DocRegistry.empty.addDocuments docs
    (out.1 = .ok () ↔ (∀ path ∈ docs.flatMap Document.paths, path ≠ "") ∧
      (docs.flatMap Document.paths).Nodup) ∧
    (out.1 = .ok () → out.2.items.Perm (docs.flatMap Document.items) ∧
      ∀ docs', docs'.Perm docs → DocRegistry.empty.addDocuments docs' = out) ∧
    Built out.2 ∧
    (∀ r, Built r → r.Consistent ∧ ∀ source entries e r',
      r.addEntries source entries = (.error e, r') →
        r'.Consistent ∧ ∃ before, r.FailsBehind source entries before e r') ∧
    ∀ files dir names, List.Forall₂ (HoldsDocument files dir) names docs →
      loadFrom files dir .empty names = out.1.map fun _ => out.2 := by
  intro out
  have hbuilt : Built out.2 := Built.empty.addDocuments docs
  refine ⟨(addDocuments_eq_ok_iff .empty docs).1.trans fresh_empty_iff, fun hok => ⟨?_, ?_⟩, hbuilt,
    fun r hr => ⟨hr.consistent, ?_⟩, fun files dir names h => loadFrom_eq_addDocuments h .empty⟩
  · exact (addDocuments_eq_ok_iff .empty docs).2 hok
  · intro docs' hperm
    exact addDocuments_eq_of_perm hperm hok
  · intro source entries e r' hfails
    have hr' := hr.add ⟨source, entries⟩
    rw [hfails] at hr'
    exact ⟨hr'.consistent, exists_failsBehind hfails⟩

/-- Two documents, and one that repeats a path of the second. -/
theorem addDocuments_registers_network :
    let docs : List Document :=
      [⟨"domain.yaml",
        [{ path := " domain", description := "A machine." }, { path := "domain.memory" }]⟩,
       ⟨"network.yaml", [{ path := "network" }]⟩]
    let more : List DocEntry := [{ path := "pool" }, { path := "network " }, { path := "volume" }]
    let out := DocRegistry.empty.addDocuments docs
    out.1 = .ok () ∧ DocRegistry.empty.addDocuments docs.reverse = out ∧
      out.2.paths = ["domain", "domain.memory", "network"] ∧
      ∃ r', out.2.addEntries "more.yaml" more =
          (.error (.duplicatePath "network" "more.yaml"), r') ∧
        r'.paths = ["domain", "domain.memory", "network", "pool"] ∧ r'.Consistent := by
  intro docs more out
  obtain ⟨hiff, horder, hbuilt, hfails, -⟩ := addDocuments_registers docs
  have hok : out.1 = .ok () := hiff.2 (by decide +kernel)
  have hmore : out.2.addEntries "more.yaml" more =
      (.error (.duplicatePath "network" "more.yaml"), (out.2.addEntries "more.yaml" more).2) := by
    rfl
  obtain ⟨hconsistent, -⟩ := (hfails out.2 hbuilt).2 _ _ _ _ hmore
  refine ⟨hok, (horder hok).2 _ (List.reverse_perm docs), by decide +kernel, _, hmore,
    by decide +kernel, hconsistent⟩

end DocRegistry

end RecordSchema.Docs
