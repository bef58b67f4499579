import RegularGrammar.Scalar

/-!
# Ranges of characters

A range holds every scalar value from its first to its last, both included, so
no range is empty.
-/

namespace RegularGrammar

/-- The scalar values from `lo` to `hi`. -/
structure CharRange where
  lo : Char
  hi : Char
  lo_le_hi : lo ≤ hi
deriving DecidableEq

namespace CharRange

/-- The range between two scalar values, given in either order. -/
def between (a b : Char) : CharRange :=
  if h : a ≤ b then ⟨a, b, h⟩
  else ⟨b, a, (Char.le_total a b).resolve_left h⟩

/-- The range that holds `c` alone. -/
def single (c : Char) : CharRange := ⟨c, c, Char.le_refl c⟩

instance : Membership Char CharRange := ⟨fun r c => r.lo ≤ c ∧ c ≤ r.hi⟩

theorem mem_def {r : CharRange} {c : Char} : c ∈ r ↔ r.lo ≤ c ∧ c ≤ r.hi := Iff.rfl

instance (r : CharRange) (c : Char) : Decidable (c ∈ r) :=
  inferInstanceAs (Decidable (r.lo ≤ c ∧ c ≤ r.hi))

/-- `r` ends before `s` begins. -/
def Before (r s : CharRange) : Prop := r.hi < s.lo

instance (r s : CharRange) : Decidable (r.Before s) := inferInstanceAs (Decidable (r.hi < s.lo))

/-- The least range that holds two ranges. -/
def hull (r s : CharRange) : CharRange where
  lo := if r.lo ≤ s.lo then r.lo else s.lo
  hi := if r.hi ≤ s.hi then s.hi else r.hi
  lo_le_hi := by
    have first := r.lo_le_hi
    have second := s.lo_le_hi
    split <;> split <;> simp only [Char.le_def, UInt32.le_iff_toNat_le] at * <;> omega

@[simp]
theorem mem_single {a c : Char} : c ∈ single a ↔ c = a := by
  rw [mem_def]
  exact ⟨fun h => Char.le_antisymm h.2 h.1, fun h => h ▸ ⟨Char.le_refl c, Char.le_refl c⟩⟩

theorem mem_between {a b c : Char} (ordered : a ≤ b) : c ∈ between a b ↔ a ≤ c ∧ c ≤ b := by
  rw [between, dif_pos ordered, mem_def]

theorem lo_between {a b : Char} (ordered : a ≤ b) : (between a b).lo = a := by
  rw [between, dif_pos ordered]

theorem hi_between {a b : Char} (ordered : a ≤ b) : (between a b).hi = b := by
  rw [between, dif_pos ordered]

theorem between_comm (a b : Char) : between a b = between b a := by
  unfold between
  split
  · rename_i ab
    split
    · rename_i ba
      simp [Char.le_antisymm ab ba]
    · rfl
  · rename_i notAb
    rw [dif_pos ((Char.le_total a b).resolve_left notAb)]

/-- The hull of two ranges that overlap holds no other value. -/
theorem mem_hull {r s : CharRange} {c : Char} (notBefore : ¬ r.Before s) (notAfter : ¬ s.Before r) :
    c ∈ r.hull s ↔ c ∈ r ∨ c ∈ s := by
  have first := r.lo_le_hi
  have second := s.lo_le_hi
  simp only [mem_def, hull, Before, Char.lt_def, Char.le_def, UInt32.lt_iff_toNat_lt, UInt32.le_iff_toNat_le] at *
  split <;> split <;> omega

/-- What comes before two ranges comes before their hull. -/
theorem before_hull {t r s : CharRange} (first : t.Before r) (second : t.Before s) : t.Before (r.hull s) := by
  simp only [Before, hull] at *
  split
  · exact first
  · exact second

theorem Before.trans {r s t : CharRange} (first : r.Before s) (second : s.Before t) : r.Before t := by
  have := s.lo_le_hi
  simp only [Before, Char.lt_def, Char.le_def, UInt32.lt_iff_toNat_lt, UInt32.le_iff_toNat_le] at *
  omega

end CharRange

end RegularGrammar
