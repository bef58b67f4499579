import RegularGrammar.CharClass

/-!
# The values of a class

Inserting a range adds its values and no others, and the gaps between ascending
ranges hold exactly the values that are left out. Both keep the order of the
ranges. In ascending ranges, halving finds exactly the values of the class.
-/

namespace RegularGrammar.CharClass

open CharRange (Before)

theorem mem_cons_ranges {c : Char} {r : CharRange} {rs : List CharRange} :
    (∃ s ∈ r :: rs, c ∈ s) ↔ c ∈ r ∨ ∃ s ∈ rs, c ∈ s := by
  simp only [List.mem_cons, exists_eq_or_imp]

theorem mem_append_ranges {c : Char} {rs ts : List CharRange} :
    (∃ s ∈ rs ++ ts, c ∈ s) ↔ (∃ s ∈ rs, c ∈ s) ∨ ∃ s ∈ ts, c ∈ s := by
  simp only [List.mem_append, or_and_right, exists_or]

/-! ## Inserting a range -/

@[simp]
theorem mem_insertRange {r : CharRange} {rs : List CharRange} {c : Char} :
    (∃ s ∈ insertRange r rs, c ∈ s) ↔ c ∈ r ∨ ∃ s ∈ rs, c ∈ s := by
  fun_induction insertRange r rs with
  | case1 r => simp
  | case2 r s rest before => simp
  | case3 r s rest notBefore after ih =>
    simp only [mem_cons_ranges] at ih ⊢
    rw [ih]
    exact or_left_comm
  | case4 r s rest notBefore notAfter ih =>
    rw [ih, CharRange.mem_hull notBefore notAfter, mem_cons_ranges]
    exact or_assoc

/-- What comes before a range and before others comes before all of them together. -/
theorem before_insertRange {t r : CharRange} {rs : List CharRange} (first : t.Before r)
    (others : ∀ s ∈ rs, t.Before s) : ∀ s ∈ insertRange r rs, t.Before s := by
  fun_induction insertRange r rs with
  | case1 r => simpa using first
  | case2 r s rest before =>
    intro u member
    rcases List.mem_cons.mp member with rfl | member
    · exact first
    · exact others u member
  | case3 r s rest notBefore after ih =>
    intro u member
    rcases List.mem_cons.mp member with rfl | member
    · exact others u List.mem_cons_self
    · exact ih first (fun v later => others v (List.mem_cons_of_mem _ later)) u member
  | case4 r s rest notBefore notAfter ih =>
    exact ih (CharRange.before_hull first (others s List.mem_cons_self))
      (fun v later => others v (List.mem_cons_of_mem _ later))

theorem insertRange_ascending {r : CharRange} {rs : List CharRange} (ascending : rs.Pairwise Before) :
    (insertRange r rs).Pairwise Before := by
  fun_induction insertRange r rs with
  | case1 r => exact List.pairwise_singleton ..
  | case2 r s rest before =>
    refine List.pairwise_cons.mpr ⟨fun u member => ?_, ascending⟩
    rcases List.mem_cons.mp member with rfl | member
    · exact before
    · exact before.trans ((List.pairwise_cons.mp ascending).1 u member)
  | case3 r s rest notBefore after ih =>
    have ⟨first, others⟩ := List.pairwise_cons.mp ascending
    exact List.pairwise_cons.mpr ⟨before_insertRange after first, ih others⟩
  | case4 r s rest notBefore notAfter ih => exact ih (List.pairwise_cons.mp ascending).2

@[simp]
theorem mem_insert {s : CharClass} {r : CharRange} {c : Char} : c ∈ s.insert r ↔ c ∈ r ∨ c ∈ s :=
  mem_insertRange

theorem insert_ascending {s : CharClass} {r : CharRange} (ascending : s.Ascending) : (s.insert r).Ascending :=
  insertRange_ascending ascending

/-! ## Unions -/

@[simp]
theorem mem_empty {c : Char} : ¬ c ∈ empty := by simp [mem_def, empty]

theorem empty_ascending : empty.Ascending := .nil

@[simp]
theorem mem_ofRange {r : CharRange} {c : Char} : c ∈ ofRange r ↔ c ∈ r := by simp [mem_def, ofRange]

theorem ofRange_ascending {r : CharRange} : (ofRange r).Ascending := List.pairwise_singleton ..

@[simp]
theorem mem_union {s t : CharClass} {c : Char} : c ∈ s.union t ↔ c ∈ s ∨ c ∈ t := by
  have fold (rs : List CharRange) (s : CharClass) : c ∈ rs.foldl insert s ↔ c ∈ s ∨ ∃ r ∈ rs, c ∈ r := by
    induction rs generalizing s with
    | nil => simp
    | cons r rest ih =>
      rw [List.foldl_cons, ih, mem_insert, mem_cons_ranges]
      exact or_assoc.trans or_left_comm
  exact fold t.ranges s

theorem union_ascending {s t : CharClass} (ascending : s.Ascending) : (s.union t).Ascending := by
  have fold (rs : List CharRange) (s : CharClass) (ascending : s.Ascending) : (rs.foldl insert s).Ascending := by
    induction rs generalizing s with
    | nil => exact ascending
    | cons r rest ih => exact ih _ (insert_ascending ascending)
  exact fold t.ranges s ascending

@[simp]
theorem mem_ofRanges {rs : List CharRange} {c : Char} : c ∈ ofRanges rs ↔ ∃ r ∈ rs, c ∈ r := by
  have fold (s : CharClass) :
      c ∈ rs.foldl (fun s r => s.union (ofRange r)) s ↔ c ∈ s ∨ ∃ r ∈ rs, c ∈ r := by
    induction rs generalizing s with
    | nil => simp
    | cons r rest ih =>
      rw [List.foldl_cons, ih, mem_union, mem_ofRange, mem_cons_ranges]
      exact or_assoc
  rw [ofRanges, fold]
  exact or_iff_right mem_empty

theorem ofRanges_ascending {rs : List CharRange} : (ofRanges rs).Ascending := by
  have fold (s : CharClass) (ascending : s.Ascending) :
      (rs.foldl (fun s r => s.union (ofRange r)) s).Ascending := by
    induction rs generalizing s with
    | nil => exact ascending
    | cons r rest ih => exact ih _ (union_ascending ascending)
  exact fold _ empty_ascending

@[simp]
theorem mem_unionAll {ss : List CharClass} {c : Char} : c ∈ unionAll ss ↔ ∃ s ∈ ss, c ∈ s := by
  have fold (s : CharClass) : c ∈ ss.foldl union s ↔ c ∈ s ∨ ∃ t ∈ ss, c ∈ t := by
    induction ss generalizing s with
    | nil => simp
    | cons t rest ih =>
      simp only [List.foldl_cons, ih, mem_union, List.mem_cons, exists_eq_or_imp]
      exact or_assoc
  rw [unionAll, fold]
  exact or_iff_right mem_empty

theorem unionAll_ascending {ss : List CharClass} : (unionAll ss).Ascending := by
  have fold (s : CharClass) (ascending : s.Ascending) : (ss.foldl union s).Ascending := by
    induction ss generalizing s with
    | nil => exact ascending
    | cons t rest ih => exact ih _ (union_ascending ascending)
  exact fold _ empty_ascending

/-! ## Complements -/

/-- A value after a range is in none of the ranges before that one. -/
theorem not_mem_of_before {r s : CharRange} {c : Char} (before : s.Before r) (after : r.lo ≤ c) : ¬ c ∈ s := by
  simp only [CharRange.mem_def, CharRange.Before, Char.lt_def, Char.le_def, UInt32.lt_iff_toNat_lt,
    UInt32.le_iff_toNat_le] at *
  omega

/-- A value before a range is in none of the ranges after that one. -/
theorem not_mem_of_after {r s : CharRange} {c : Char} (after : r.Before s) (before : c ≤ r.hi) : ¬ c ∈ s := by
  simp only [CharRange.mem_def, CharRange.Before, Char.lt_def, Char.le_def, UInt32.lt_iff_toNat_lt,
    UInt32.le_iff_toNat_le] at *
  omega

@[simp]
theorem mem_gapBefore {start c : Char} {r : CharRange} :
    (∃ g ∈ gapBefore start r, c ∈ g) ↔ start ≤ c ∧ c < r.lo := by
  unfold gapBefore
  split
  · rename_i room
    cases previous : Scalar.prev? r.lo with
    | none => exact absurd room (Char.not_lt.mpr (Scalar.le_of_prev?_eq_none previous))
    | some stop =>
      have ordered : start ≤ stop := (Scalar.lt_iff_of_prev? previous).mp room
      simp [CharRange.mem_between ordered, Scalar.lt_iff_of_prev? previous]
  · rename_i noRoom
    simp only [List.not_mem_nil, false_and, exists_false, false_iff, not_and]
    exact fun fromStart => Char.not_lt.mpr (Std.le_trans (Char.not_lt.mp noRoom) fromStart)

/-- A gap before a range lies between its start and that range. -/
theorem bounds_of_mem_gapBefore {start : Char} {r g : CharRange} (h : g ∈ gapBefore start r) :
    g.lo = start ∧ g.hi < r.lo := by
  unfold gapBefore at h
  split at h
  · rename_i room
    cases previous : Scalar.prev? r.lo with
    | none => simp [previous] at h
    | some stop =>
      have ordered : start ≤ stop := (Scalar.lt_iff_of_prev? previous).mp room
      have same : g = .between start stop := by simpa [previous] using h
      rw [same, CharRange.lo_between ordered, CharRange.hi_between ordered]
      exact ⟨rfl, (Scalar.lt_iff_of_prev? previous).mpr (Char.le_refl stop)⟩
  · cases h

/-- There is at most one gap before a range. -/
theorem gapBefore_pairwise {relation : CharRange → CharRange → Prop} {start : Char} {r : CharRange} :
    (gapBefore start r).Pairwise relation := by
  unfold gapBefore
  split
  · cases Scalar.prev? r.lo with
    | none => exact .nil
    | some stop => exact List.pairwise_singleton ..
  · exact .nil

theorem mem_gapsFrom {start c : Char} {rs : List CharRange} (ascending : rs.Pairwise Before)
    (later : ∀ r ∈ rs, start ≤ r.lo) :
    (∃ g ∈ gapsFrom (some start) rs, c ∈ g) ↔ start ≤ c ∧ ¬ ∃ r ∈ rs, c ∈ r := by
  induction rs generalizing start with
  | nil => simp [gapsFrom, CharRange.mem_between (Scalar.le_last start), Scalar.le_last c]
  | cons r rest ih =>
    have ⟨first, others⟩ := List.pairwise_cons.mp ascending
    have reached : start ≤ r.hi := Std.le_trans (later r List.mem_cons_self) r.lo_le_hi
    have after : (∃ g ∈ gapsFrom (Scalar.next? r.hi) rest, c ∈ g) ↔ r.hi < c ∧ ¬ ∃ s ∈ rest, c ∈ s := by
      cases next : Scalar.next? r.hi with
      | none => simp [gapsFrom, Char.not_lt.mpr (Scalar.le_of_next?_eq_none (c := c) next)]
      | some start =>
        rw [Scalar.lt_iff_of_next? next]
        exact ih others fun s member => (Scalar.lt_iff_of_next? next).mp (first s member)
    have notRest : c ≤ r.hi → ¬ ∃ s ∈ rest, c ∈ s := fun below ⟨s, member, holds⟩ =>
      not_mem_of_after (first s member) below holds
    rw [gapsFrom, mem_append_ranges, mem_gapBefore, after, mem_cons_ranges, not_or]
    constructor
    · rintro (⟨fromStart, below⟩ | ⟨above, notRest⟩)
      · exact ⟨fromStart, fun holds => Char.not_le.mpr below holds.1,
          notRest (Std.le_trans (Std.le_of_lt below) r.lo_le_hi)⟩
      · exact ⟨Std.le_trans reached (Std.le_of_lt above), fun holds => Char.not_le.mpr above holds.2, notRest⟩
    · rintro ⟨fromStart, notHere, notRest⟩
      by_cases below : c < r.lo
      · exact .inl ⟨fromStart, below⟩
      · exact .inr ⟨Char.not_le.mp fun inside => notHere ⟨Char.not_lt.mp below, inside⟩, notRest⟩

theorem le_of_mem_gapsFrom {start : Char} {rs : List CharRange} {g : CharRange} (ascending : rs.Pairwise Before)
    (later : ∀ r ∈ rs, start ≤ r.lo) (h : g ∈ gapsFrom (some start) rs) : start ≤ g.lo :=
  ((mem_gapsFrom ascending later).mp ⟨g, h, Char.le_refl _, g.lo_le_hi⟩).1

/-- Between two gaps lies one of the ranges that leave them. -/
theorem gapsFrom_between {start : Char} {rs : List CharRange} (ascending : rs.Pairwise Before)
    (later : ∀ r ∈ rs, start ≤ r.lo) :
    (gapsFrom (some start) rs).Pairwise fun g h => ∃ r ∈ rs, g.Before r ∧ r.Before h := by
  induction rs generalizing start with
  | nil => exact List.pairwise_singleton ..
  | cons r rest ih =>
    have ⟨first, others⟩ := List.pairwise_cons.mp ascending
    rw [gapsFrom]
    cases next : Scalar.next? r.hi with
    | none => simpa [gapsFrom] using gapBefore_pairwise
    | some after =>
      have laterRest : ∀ s ∈ rest, after ≤ s.lo := fun s member =>
        (Scalar.lt_iff_of_next? next).mp (first s member)
      refine List.pairwise_append.mpr ⟨gapBefore_pairwise, ?_, fun g inGap h inRest => ?_⟩
      · refine (ih others laterRest).imp ?_
        rintro g h ⟨s, member, between⟩
        exact ⟨s, List.mem_cons_of_mem r member, between⟩
      · have below := (bounds_of_mem_gapBefore inGap).2
        have above := (Scalar.lt_iff_of_next? next).mpr (le_of_mem_gapsFrom others laterRest inRest)
        exact ⟨r, List.mem_cons_self, below, above⟩

/-- A complement holds what its class leaves out. -/
theorem mem_complement? {s t : CharClass} {c : Char} (ascending : s.Ascending) (h : s.complement? = some t) :
    c ∈ t ↔ ¬ c ∈ s := by
  have gaps := mem_gapsFrom (c := c) ascending fun r _ => Scalar.first_le r.lo
  unfold complement? at h
  split at h
  · cases h
  · cases h
    rw [mem_def, gaps, mem_def]
    exact and_iff_right (Scalar.first_le c)

/-- Between two ranges of a complement lies one of its class. -/
theorem complement?_between {s t : CharClass} (ascending : s.Ascending) (h : s.complement? = some t) :
    t.ranges.Pairwise fun g g' => ∃ r ∈ s.ranges, g.Before r ∧ r.Before g' := by
  have gaps := gapsFrom_between ascending fun r _ => Scalar.first_le r.lo
  unfold complement? at h
  split at h
  · cases h
  · cases h
    exact gaps

theorem complement?_ascending {s t : CharClass} (ascending : s.Ascending) (h : s.complement? = some t) :
    t.Ascending := by
  refine (complement?_between ascending h).imp ?_
  rintro g g' ⟨r, -, before, after⟩
  exact before.trans after

/-- The classes without a complement are those of every value. -/
theorem complement?_eq_none_iff {s : CharClass} (ascending : s.Ascending) :
    s.complement? = none ↔ ∀ c, c ∈ s := by
  have gaps := fun c => mem_gapsFrom (c := c) ascending fun r _ => Scalar.first_le r.lo
  unfold complement?
  split
  · rename_i none
    rw [none] at gaps
    simp only [true_iff]
    intro c
    have outside := (not_congr (gaps c)).mp (by simp)
    exact Classical.not_not.mp fun notIn => outside ⟨Scalar.first_le c, notIn⟩
  · rename_i notNone
    simp only [reduceCtorEq, false_iff]
    intro all
    cases found : gapsFrom (some Scalar.first) s.ranges with
    | nil => exact notNone found
    | cons g rest =>
      have inside : g.lo ∈ g := ⟨Char.le_refl _, g.lo_le_hi⟩
      exact ((gaps g.lo).mp ⟨g, found ▸ List.mem_cons_self, inside⟩).2 (all g.lo)

/-! ## Membership -/

theorem search_iff {c : Char} {rs : List CharRange} (ascending : rs.Pairwise Before) :
    search c rs = true ↔ ∃ r ∈ rs, c ∈ r := by
  fun_induction search c rs with
  | case1 rs none =>
    have empty : rs = [] := by
      have := List.drop_eq_nil_iff.mp none
      cases rs with
      | nil => rfl
      | cons r rest => simp only [List.length_cons] at this; omega
    simp [empty]
  | case2 rs r after halves below ih =>
    have whole := (List.take_append_drop (rs.length / 2) rs).symm
    rw [halves] at whole
    rw [whole] at ascending
    have ⟨_, upper, lower⟩ := List.pairwise_append.mp ascending
    have reached : r.lo ≤ c := Std.le_trans r.lo_le_hi (Std.le_of_lt below)
    have notLower : ¬ ∃ s ∈ rs.take (rs.length / 2), c ∈ s := fun ⟨s, member, holds⟩ =>
      not_mem_of_before (lower s member r List.mem_cons_self) reached holds
    have notHere : ¬ c ∈ r := fun holds => Char.not_le.mpr below holds.2
    rw [ih (List.pairwise_cons.mp upper).2, whole, mem_append_ranges, mem_cons_ranges]
    simp only [notLower, notHere, false_or]
  | case3 rs r after halves notBelow above ih =>
    have whole := (List.take_append_drop (rs.length / 2) rs).symm
    rw [halves] at whole
    have ordered := whole ▸ ascending
    have ⟨lower, upper, _⟩ := List.pairwise_append.mp ordered
    have notReached : c ≤ r.hi := Char.not_lt.mp notBelow
    have notUpper : ¬ ∃ s ∈ after, c ∈ s := fun ⟨s, member, holds⟩ =>
      not_mem_of_after ((List.pairwise_cons.mp upper).1 s member) notReached holds
    have notHere : ¬ c ∈ r := fun holds => Char.not_le.mpr above holds.1
    rw [ih lower]
    conv => rhs; rw [whole]
    rw [mem_append_ranges, mem_cons_ranges]
    simp only [notUpper, notHere, or_false]
  | case4 rs r after halves notBelow notAbove =>
    have member : r ∈ rs := List.mem_of_mem_drop (halves ▸ List.mem_cons_self)
    simp only [true_iff]
    exact ⟨r, member, Char.not_lt.mp notAbove, Char.not_lt.mp notBelow⟩

theorem contains_iff {s : CharClass} {c : Char} (ascending : s.Ascending) : s.contains c = true ↔ c ∈ s :=
  search_iff ascending

theorem isEmpty_iff {s : CharClass} : s.isEmpty = true ↔ ∀ c, c ∉ s := by
  rw [isEmpty, List.isEmpty_iff]
  constructor
  · rintro none c ⟨r, member, _⟩
    rw [none] at member
    cases member
  · intro none
    match found : s.ranges with
    | [] => rfl
    | r :: rest => exact absurd ⟨r, found ▸ List.mem_cons_self, Char.le_refl _, r.lo_le_hi⟩ (none r.lo)

theorem isFull_iff {s : CharClass} (ascending : s.Ascending) : s.isFull = true ↔ ∀ c, c ∈ s := by
  rw [isFull, Option.isNone_iff_eq_none, complement?_eq_none_iff ascending]

end RegularGrammar.CharClass
