/-!
# Scalar values in order

Unicode scalar values stand in one row, from U+0000 to U+10FFFF without the
surrogates, so U+E000 comes right after U+D7FF. The neighbours of a scalar
value are the ones before and after it in this row.
-/

namespace RegularGrammar.Scalar

/-- The least scalar value. -/
def first : Char := '\x00'

/-- The greatest scalar value. -/
def last : Char := Char.ofNat 0x10FFFF

/-- The scalar value right after `c`; there is none after the last. -/
def next? (c : Char) : Option Char := c.succ?

/-- The scalar value right before `c`; there is none before the first. -/
def prev? (c : Char) : Option Char :=
  if c.ordinal.val = 0 then none
  else some (Char.ofOrdinal ⟨c.ordinal.val - 1, by omega⟩)

theorem next?_eq_some_iff {a b : Char} : next? a = some b ↔ b.ordinal.val = a.ordinal.val + 1 := by
  rw [next?, Char.succ?_eq, Option.map_eq_some_iff]
  simp only [Fin.addNat?]
  constructor
  · rintro ⟨f, found, rfl⟩
    split at found
    · cases found
      rw [Char.ordinal_ofOrdinal]
    · cases found
  · intro h
    have := b.ordinal.isLt
    refine ⟨b.ordinal, ?_, Char.ofOrdinal_ordinal⟩
    simp [← h, this]

theorem prev?_eq_some_iff {a b : Char} : prev? a = some b ↔ next? b = some a := by
  rw [next?_eq_some_iff, prev?]
  split
  · simp; omega
  · rename_i positive
    rw [Option.some.injEq]
    constructor
    · rintro rfl
      simp only [Char.ordinal_ofOrdinal]
      omega
    · intro h
      apply Char.ordinal_inj.mp
      rw [Char.ordinal_ofOrdinal]
      ext
      simp only
      omega

@[simp]
theorem first_le (c : Char) : first ≤ c := by
  rw [Char.le_def, UInt32.le_iff_toNat_le]
  exact Nat.zero_le _

@[simp]
theorem le_last (c : Char) : c ≤ last := by
  rw [Char.le_def, UInt32.le_iff_toNat_le]
  show c.val.toNat ≤ 0x10FFFF
  rcases c.valid with low | ⟨_, high⟩
  · exact Nat.le_of_lt (Nat.lt_trans low (by decide))
  · exact Nat.le_of_lt_succ high

theorem lt_iff_of_next? {a b c : Char} (h : next? a = some b) : a < c ↔ b ≤ c := by
  have := next?_eq_some_iff.mp h
  rw [Char.lt_iff_ordinal_lt, Char.le_iff_ordinal_le, Fin.lt_def, Fin.le_def]
  omega

/-- From a value to the one after it there are these two. -/
theorem between_next?_iff {a b c : Char} (h : next? a = some b) : a ≤ c ∧ c ≤ b ↔ a = c ∨ b = c := by
  have below : a < b := (lt_iff_of_next? h).mpr (Char.le_refl b)
  constructor
  · rintro ⟨fromA, toB⟩
    by_cases above : a < c
    · exact .inr (Char.le_antisymm ((lt_iff_of_next? h).mp above) toB)
    · exact .inl (Char.le_antisymm fromA (Char.not_lt.mp above))
  · rintro (rfl | rfl)
    · exact ⟨Char.le_refl _, Std.le_of_lt below⟩
    · exact ⟨Std.le_of_lt below, Char.le_refl _⟩

theorem le_of_next?_eq_none {a c : Char} (h : next? a = none) : c ≤ a := by
  rw [Char.le_iff_ordinal_le, Fin.le_def]
  have full := c.ordinal.isLt
  rw [next?, Char.succ?_eq, Option.map_eq_none_iff] at h
  simp only [Fin.addNat?] at h
  split at h
  · cases h
  · omega

theorem lt_iff_of_prev? {a b c : Char} (h : prev? a = some b) : c < a ↔ c ≤ b := by
  have := lt_iff_of_next? (c := c) (prev?_eq_some_iff.mp h)
  rw [← Char.not_le, ← this, Char.not_lt]

theorem le_of_prev?_eq_none {a c : Char} (h : prev? a = none) : a ≤ c := by
  rw [prev?] at h
  split at h
  · rw [Char.le_iff_ordinal_le, Fin.le_def]
    omega
  · cases h

end RegularGrammar.Scalar
