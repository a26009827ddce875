import Mathlib.Data.String.Basic
import RecordSchema.Text.LetterCase

/-!
# Facts of the case tables

A lower-case form has no lower-case form but itself, and none but its own has an underscore in it.
Both hold because no run of the table meets what another one is moved to.
-/

namespace RecordSchema.Text

variable {c d : Char} {n : Nat}

/-! ## Runs -/

theorem CaseRun.contains_iff {r : CaseRun} :
    r.contains n = true ↔ (r.first ≤ n ∧ n ≤ r.last) ∧ (n - r.first) % r.step = 0 := by
  rw [CaseRun.contains, Bool.and_eq_true, Bool.and_eq_true, decide_eq_true_iff, decide_eq_true_iff,
    beq_iff_eq]

/-- Whether two runs are seen not to meet, as one ends before the other begins or they go on by
steps of two between each other. -/
def CaseRun.isApart (r t : CaseRun) : Bool :=
  r.last.blt t.first || t.last.blt r.first ||
    ((r.first == r.last || r.step == 2) && t.step == 2 && (r.first + t.first) % 2 == 1)

theorem CaseRun.contains_eq_false_of_isApart {r t : CaseRun} (h : r.isApart t = true)
    (hr : r.contains n = true) : t.contains n = false := by
  rw [← Bool.not_eq_true, CaseRun.contains_iff]
  rw [CaseRun.contains_iff] at hr
  simp only [CaseRun.isApart, Bool.or_eq_true, Bool.and_eq_true, Nat.blt_eq, beq_iff_eq] at h
  rintro ⟨ht, htstep⟩
  rcases h with (h | h) | ⟨⟨hone | htwo, ht⟩, h⟩
  · omega
  · omega
  · rw [ht] at htstep
    omega
  · rw [htwo] at hr
    rw [ht] at htstep
    omega

/-- Where the code points of a run are moved to. -/
def CaseShift.images (s : CaseShift) : CaseRun :=
  ⟨s.image, s.image + (s.run.last - s.run.first), s.run.step⟩

theorem CaseShift.contains_images {s : CaseShift} (h : s.run.contains n = true) :
    s.images.contains (s.image + (n - s.run.first)) = true := by
  rw [CaseRun.contains_iff] at h ⊢
  obtain ⟨hrange, hstep⟩ := h
  refine ⟨⟨?_, ?_⟩, ?_⟩
  · exact Nat.le_add_right ..
  · exact Nat.add_le_add_left (Nat.sub_le_sub_right hrange.2 _) _
  · rw [CaseShift.images, Nat.add_sub_cancel_left]
    exact hstep

/-! ## The table of lower-case forms -/

/-- No code point that a run is moved to is in a run itself. -/
theorem isApart_of_mem_lowerShifts {s t : CaseShift} (hs : s ∈ lowerShifts)
    (ht : t ∈ lowerShifts) : s.images.isApart t.run = true := by
  have hall :
      (lowerShifts.all fun s => lowerShifts.all fun t => s.images.isApart t.run) = true := by
    decide +kernel
  exact List.all_eq_true.1 (List.all_eq_true.1 hall s hs) t ht

/-- All code points a run is moved to are characters, and neither the capital I with a dot above
nor the underscore is among them. -/
theorem images_of_mem_lowerShifts :
    ∀ s ∈ lowerShifts, (s.images.last < 0xd800 ∨ 0xdfff < s.image ∧ s.images.last < 0x110000) ∧
      s.images.contains 0x130 = false ∧ s.images.contains 0x5f = false := by
  decide +kernel

theorem toNat_ofNat_of_images {s : CaseShift} (hs : s ∈ lowerShifts)
    (hn : s.images.contains n = true) : (Char.ofNat n).toNat = n := by
  have hrange := (CaseRun.contains_iff.1 hn).1
  have hvalid : n.isValidChar := by
    rcases (images_of_mem_lowerShifts s hs).1 with h | h
    · exact .inl (hrange.2.trans_lt h)
    · exact .inr ⟨h.1.trans_le hrange.1, hrange.2.trans_lt h.2⟩
  rw [Char.ofNat, dif_pos hvalid]
  rfl

/-! ## Lower-case forms -/

theorem lower_cases (c : Char) :
    (c = '\u0130' ∧ lower c = ['i', '\u0307']) ∨
    (∃ s ∈ lowerShifts, s.run.contains c.toNat = true ∧
      lower c = [Char.ofNat (s.image + (c.toNat - s.run.first))]) ∨
    ((∀ s ∈ lowerShifts, s.run.contains c.toNat = false) ∧ lower c = [c]) := by
  rw [lower]
  split_ifs with hdotted
  · exact .inl ⟨hdotted, rfl⟩
  · split
    · rename_i s hs
      have hrun := List.find?_some hs
      exact .inr (.inl ⟨s, List.mem_of_find?_eq_some hs, hrun, rfl⟩)
    · rename_i hnone
      exact .inr (.inr ⟨fun s hs => by simpa using List.find?_eq_none.1 hnone s hs, rfl⟩)

theorem lower_eq_self (hdotted : c ≠ '\u0130')
    (h : ∀ s ∈ lowerShifts, s.run.contains c.toNat = false) : lower c = [c] := by
  have hnone : lowerShifts.find? (·.run.contains c.toNat) = none :=
    List.find?_eq_none.2 fun s hs => by simp [h s hs]
  rw [lower, if_neg hdotted, hnone]

/-- What a character is moved to is not moved again. -/
theorem lower_of_images {s : CaseShift} (hs : s ∈ lowerShifts)
    (hn : s.images.contains n = true) : lower (Char.ofNat n) = [Char.ofNat n] := by
  have htoNat := toNat_ofNat_of_images hs hn
  refine lower_eq_self ?_ fun t ht => ?_
  · intro hdotted
    rw [hdotted] at htoNat
    obtain ⟨-, hno, -⟩ := images_of_mem_lowerShifts s hs
    rw [← htoNat] at hn
    exact Bool.false_ne_true (hno.symm.trans hn)
  · rw [htoNat]
    exact CaseRun.contains_eq_false_of_isApart (isApart_of_mem_lowerShifts hs ht) hn

/-- Lower-case forms are their own. -/
theorem lower_of_mem_lower (h : d ∈ lower c) : lower d = [d] := by
  rcases lower_cases c with ⟨-, hlower⟩ | ⟨s, hs, hrun, hlower⟩ | ⟨-, hlower⟩
  · rw [hlower] at h
    rcases List.mem_pair.1 h with rfl | rfl
    · decide +kernel
    · decide +kernel
  · rw [hlower, List.mem_singleton] at h
    rw [h]
    exact lower_of_images hs (CaseShift.contains_images hrun)
  · rw [hlower, List.mem_singleton] at h
    rw [h, hlower]

theorem lower_ne_nil (c : Char) : lower c ≠ [] := by
  rcases lower_cases c with ⟨-, hlower⟩ | ⟨s, -, -, hlower⟩ | ⟨-, hlower⟩ <;>
    exact hlower ▸ List.cons_ne_nil _ _

theorem lower_underscore : lower '_' = ['_'] := by decide +kernel

/-- An underscore comes from an underscore. -/
theorem underscore_mem_lower_iff : '_' ∈ lower c ↔ c = '_' := by
  constructor
  · intro h
    rcases lower_cases c with ⟨-, hlower⟩ | ⟨s, hs, hrun, hlower⟩ | ⟨-, hlower⟩
    · rw [hlower] at h
      simp at h
    · rw [hlower, List.mem_singleton] at h
      have himage := CaseShift.contains_images hrun
      have htoNat := toNat_ofNat_of_images hs himage
      obtain ⟨-, -, hno⟩ := images_of_mem_lowerShifts s hs
      rw [← htoNat, ← h] at himage
      exact absurd (hno.symm.trans himage) Bool.false_ne_true
    · rw [hlower, List.mem_singleton] at h
      exact h.symm
  · rintro rfl
    rw [lower_underscore]
    exact List.mem_singleton_self _

/-! ## ASCII -/

/-- Only the letters from A to Z are moved. -/
theorem moves_of_first_lt :
    ∀ s ∈ lowerShifts, s.run.first < 128 →
      s.run.first = 0x41 ∧ s.run.last = 0x5a ∧ s.image = 0x61 := by
  decide +kernel

theorem isUpper_iff_of_lt (hc : c.toNat < 128) :
    isUpper c = true ↔ 0x41 ≤ c.toNat ∧ c.toNat ≤ 0x5a := by
  have hall : ∀ r ∈ uppercaseRuns, r.first < 128 → r = ⟨0x41, 0x5a, 1⟩ := by
    decide +kernel
  rw [isUpper, List.any_eq_true]
  constructor
  · rintro ⟨r, hr, hcontains⟩
    have hrange := (CaseRun.contains_iff.1 hcontains).1
    rwa [hall r hr (hrange.1.trans_lt hc)] at hrange
  · intro hrange
    exact ⟨⟨0x41, 0x5a, 1⟩, List.mem_cons_self, CaseRun.contains_iff.2 ⟨hrange, Nat.mod_one _⟩⟩

/-- The lower-case form of an ASCII character has no capital. -/
theorem isUpper_of_mem_lower_of_lt (hc : c.toNat < 128) (h : d ∈ lower c) : isUpper d = false := by
  rcases lower_cases c with ⟨rfl, -⟩ | ⟨s, hs, hrun, hlower⟩ | ⟨hnone, hlower⟩
  · exact absurd hc (by decide)
  · rw [hlower, List.mem_singleton] at h
    have htoNat := toNat_ofNat_of_images hs (CaseShift.contains_images hrun)
    have hrange := (CaseRun.contains_iff.1 hrun).1
    have hmoves := moves_of_first_lt s hs (hrange.1.trans_lt hc)
    rw [← h] at htoNat
    rw [← Bool.not_eq_true, isUpper_iff_of_lt (by omega)]
    omega
  · rw [hlower, List.mem_singleton] at h
    rw [h, ← Bool.not_eq_true, isUpper_iff_of_lt hc]
    intro hrange
    have hno := hnone ⟨⟨0x41, 0x5a, 1⟩, 0x61⟩ List.mem_cons_self
    rw [← Bool.not_eq_true, CaseRun.contains_iff] at hno
    exact hno ⟨hrange, Nat.mod_one _⟩

end RecordSchema.Text
