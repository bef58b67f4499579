import RegularGrammar.Proofs.CharClass.Built

/-!
# Unions, range by range

Which ranges a class has is told by its values and by the neighbours that lie in one
range. Two neighbours lie in one range of a union exactly if they do in one of the two
classes, so ranges that overlap are merged and ranges that merely touch are not. The
laws of sets hold of unions even as lists of ranges: they have no regard for the order
in which ranges or classes are put together.
-/

namespace RegularGrammar

/-- Two values are the same, or the second one comes right after the first. -/
def Scalar.Near (a b : Char) : Prop := a = b ∨ next? a = some b

theorem Scalar.Near.ordinal {a b : Char} (h : Near a b) :
    a.ordinal.val ≤ b.ordinal.val ∧ b.ordinal.val ≤ a.ordinal.val + 1 := by
  rcases h with rfl | next
  · omega
  · have := next?_eq_some_iff.mp next
    omega

theorem CharRange.lo_mem (r : CharRange) : r.lo ∈ r := ⟨Char.le_refl _, r.lo_le_hi⟩

theorem CharRange.eq_of_bounds {r t : CharRange} (first : r.lo = t.lo) (last : r.hi = t.hi) : r = t := by
  cases r
  cases t
  cases first
  cases last
  rfl

namespace CharClass

open CharRange (Before lo_mem eq_of_bounds)
open Scalar (Near)

/-- Two values lie in one range of a class. -/
def Joins (s : CharClass) (a b : Char) : Prop := ∃ r ∈ s.ranges, a ∈ r ∧ b ∈ r

variable {a b c : Char} {r t : CharRange} {rs ts : List CharRange}

theorem joins_cons : (∃ s ∈ r :: rs, a ∈ s ∧ b ∈ s) ↔ (a ∈ r ∧ b ∈ r) ∨ ∃ s ∈ rs, a ∈ s ∧ b ∈ s := by
  simp only [List.mem_cons, exists_eq_or_imp]

/-- What lies in one of some ascending ranges, but not in the first, comes after the first. -/
theorem later_joins_iff (ascending : (r :: rs).Pairwise Before) :
    (∃ s ∈ rs, a ∈ s ∧ b ∈ s) ↔ r.hi < a ∧ ∃ s ∈ r :: rs, a ∈ s ∧ b ∈ s := by
  constructor
  · rintro ⟨s, member, inA, inB⟩
    have before : r.hi < s.lo := (List.pairwise_cons.mp ascending).1 s member
    exact ⟨Std.lt_of_lt_of_le before inA.1, s, List.mem_cons_of_mem _ member, inA, inB⟩
  · rintro ⟨after, s, member, inA, inB⟩
    rcases List.mem_cons.mp member with rfl | member
    · exact absurd inA.2 (Char.not_le.mpr after)
    · exact ⟨s, member, inA, inB⟩

/-- Ascending ranges begin at their least value. -/
theorem lo_le_of_mem (ascending : (r :: rs).Pairwise Before) (h : ∃ s ∈ r :: rs, c ∈ s) : r.lo ≤ c := by
  obtain ⟨s, member, inside⟩ := h
  rcases List.mem_cons.mp member with rfl | member
  · exact inside.1
  · have before : r.hi < s.lo := (List.pairwise_cons.mp ascending).1 s member
    exact Std.le_trans r.lo_le_hi (Std.le_trans (Std.le_of_lt before) inside.1)

/-- A range that begins inside of the first one ends inside of it if its neighbours lie in one range. -/
theorem hi_le_of_joins (ascending : (r :: rs).Pairwise Before) (start : t.lo ≤ r.hi)
    (joins : ∀ a b, Near a b → a ∈ t → b ∈ t → ∃ s ∈ r :: rs, a ∈ s ∧ b ∈ s) : t.hi ≤ r.hi := by
  by_cases within : t.hi ≤ r.hi
  · exact within
  have beyond : r.hi < t.hi := Char.not_le.mp within
  cases next : Scalar.next? r.hi with
  | none => exact Scalar.le_of_next?_eq_none next
  | some d =>
    have after : r.hi < d := (Scalar.lt_iff_of_next? next).mpr (Char.le_refl d)
    have inside : d ≤ t.hi := (Scalar.lt_iff_of_next? next).mp beyond
    have together := joins r.hi d (.inr next) ⟨start, Std.le_of_lt beyond⟩
      ⟨Std.le_trans start (Std.le_of_lt after), inside⟩
    -- The last value of the first range and the one after it lie in no range together.
    obtain ⟨s, member, inLast, inNext⟩ := together
    rcases List.mem_cons.mp member with rfl | member
    · exact absurd inNext.2 (Char.not_le.mpr after)
    · have before : r.hi < s.lo := (List.pairwise_cons.mp ascending).1 s member
      exact absurd inLast.1 (Char.not_le.mpr before)

theorem ranges_eq_of_joins (left : rs.Pairwise Before) (right : ts.Pairwise Before)
    (same : ∀ a b, Near a b → ((∃ r ∈ rs, a ∈ r ∧ b ∈ r) ↔ ∃ t ∈ ts, a ∈ t ∧ b ∈ t)) : rs = ts := by
  have values (c : Char) : (∃ r ∈ rs, c ∈ r) ↔ ∃ t ∈ ts, c ∈ t := by
    simpa only [and_self] using same c c (.inl rfl)
  induction rs generalizing ts with
  | nil =>
    cases ts with
    | nil => rfl
    | cons t others =>
      obtain ⟨_, member, -⟩ := (values t.lo).mpr ⟨t, List.mem_cons_self, lo_mem t⟩
      cases member
  | cons r rest ih =>
    cases ts with
    | nil =>
      obtain ⟨_, member, -⟩ := (values r.lo).mp ⟨r, List.mem_cons_self, lo_mem r⟩
      cases member
    | cons t others =>
      have first : r.lo = t.lo := by
        have below := lo_le_of_mem left ((values t.lo).mpr ⟨t, List.mem_cons_self, lo_mem t⟩)
        have above := lo_le_of_mem right ((values r.lo).mp ⟨r, List.mem_cons_self, lo_mem r⟩)
        exact Char.le_antisymm below above
      have last : r.hi = t.hi := by
        have above := hi_le_of_joins left (first ▸ r.lo_le_hi) fun a b near inA inB =>
          (same a b near).mpr ⟨t, List.mem_cons_self, inA, inB⟩
        have below := hi_le_of_joins right (first ▸ t.lo_le_hi) fun a b near inA inB =>
          (same a b near).mp ⟨r, List.mem_cons_self, inA, inB⟩
        exact Char.le_antisymm below above
      have head : r = t := eq_of_bounds first last
      subst head
      have later (a b : Char) (near : Near a b) : (∃ s ∈ rest, a ∈ s ∧ b ∈ s) ↔ ∃ s ∈ others, a ∈ s ∧ b ∈ s := by
        rw [later_joins_iff left, later_joins_iff right, same a b near]
      rw [ih (List.pairwise_cons.mp left).2 (List.pairwise_cons.mp right).2 later]
      intro c
      simpa only [and_self] using later c c (.inl rfl)

/-- Classes with the same values and the same joined neighbours have the same ranges. -/
theorem eq_of_joins {s t : CharClass} (left : s.Ascending) (right : t.Ascending)
    (same : ∀ a b, Near a b → (s.Joins a b ↔ t.Joins a b)) : s = t := by
  obtain ⟨rs⟩ := s
  obtain ⟨ts⟩ := t
  exact congrArg CharClass.mk (ranges_eq_of_joins left right same)

section Near

variable (near : Near a b)

include near

/-- Neighbours lie in the hull of two ranges that overlap only if they lie in one of the two. -/
theorem joins_hull (notBefore : ¬ r.Before t) (notAfter : ¬ t.Before r) :
    a ∈ r.hull t ∧ b ∈ r.hull t ↔ (a ∈ r ∧ b ∈ r) ∨ (a ∈ t ∧ b ∈ t) := by
  have ⟨below, above⟩ := near.ordinal
  rw [CharRange.mem_hull notBefore notAfter, CharRange.mem_hull notBefore notAfter]
  simp only [CharRange.mem_def, Before, Char.lt_iff_ordinal_lt, Char.le_iff_ordinal_le, Fin.lt_def, Fin.le_def] at *
  omega

theorem joins_insertRange :
    (∃ s ∈ insertRange r rs, a ∈ s ∧ b ∈ s) ↔ (a ∈ r ∧ b ∈ r) ∨ ∃ s ∈ rs, a ∈ s ∧ b ∈ s := by
  fun_induction insertRange r rs with
  | case1 r => simp
  | case2 r s rest before => rw [joins_cons]
  | case3 r s rest notBefore after ih =>
    rw [joins_cons, joins_cons, ih]
    exact or_left_comm
  | case4 r s rest notBefore notAfter ih =>
    rw [ih, joins_hull near notBefore notAfter, joins_cons]
    exact or_assoc

theorem joins_union {s t : CharClass} : (s.union t).Joins a b ↔ s.Joins a b ∨ t.Joins a b := by
  have fold (rs : List CharRange) (s : CharClass) :
      (rs.foldl insert s).Joins a b ↔ s.Joins a b ∨ ∃ r ∈ rs, a ∈ r ∧ b ∈ r := by
    induction rs generalizing s with
    | nil => simp
    | cons r rest ih =>
      have put : (s.insert r).Joins a b ↔ (a ∈ r ∧ b ∈ r) ∨ s.Joins a b := joins_insertRange near
      rw [List.foldl_cons, ih, put, joins_cons]
      exact or_assoc.trans or_left_comm
  exact fold t.ranges s

theorem joins_unionAll {ss : List CharClass} : (unionAll ss).Joins a b ↔ ∃ s ∈ ss, s.Joins a b := by
  have fold (s : CharClass) : (ss.foldl union s).Joins a b ↔ s.Joins a b ∨ ∃ t ∈ ss, t.Joins a b := by
    induction ss generalizing s with
    | nil => simp
    | cons t rest ih =>
      rw [List.foldl_cons, ih, joins_union near]
      simp only [List.mem_cons, exists_eq_or_imp]
      exact or_assoc
  have nothing : ¬ empty.Joins a b := by simp [Joins, empty]
  rw [unionAll, fold]
  exact or_iff_right nothing

end Near

theorem ofRanges_eq_unionAll (rs : List CharRange) : ofRanges rs = unionAll (rs.map ofRange) := by
  rw [ofRanges, unionAll, List.foldl_map]

variable {s t u : CharClass}

theorem union_comm (left : s.Ascending) (right : t.Ascending) : s.union t = t.union s := by
  refine eq_of_joins (union_ascending left) (union_ascending right) ?_
  intro a b near
  rw [joins_union near, joins_union near]
  exact or_comm

theorem union_assoc (left : s.Ascending) : (s.union t).union u = s.union (t.union u) := by
  refine eq_of_joins (union_ascending (union_ascending left)) (union_ascending left) ?_
  intro a b near
  rw [joins_union near, joins_union near, joins_union near, joins_union near]
  exact or_assoc

theorem union_self (ascending : s.Ascending) : s.union s = s := by
  refine eq_of_joins (union_ascending ascending) ascending ?_
  intro a b near
  rw [joins_union near]
  exact or_self_iff

@[simp]
theorem union_empty : s.union empty = s := rfl

theorem empty_union (ascending : s.Ascending) : empty.union s = s := by
  simp [union_comm empty_ascending ascending]

/-- Classes may be put together in any order, and any number of times. -/
theorem unionAll_congr {ss ts : List CharClass} (same : ∀ s, s ∈ ss ↔ s ∈ ts) : unionAll ss = unionAll ts := by
  refine eq_of_joins unionAll_ascending unionAll_ascending ?_
  intro a b near
  rw [joins_unionAll near, joins_unionAll near]
  simp only [same]

theorem ofRanges_congr (same : ∀ r, r ∈ rs ↔ r ∈ ts) : ofRanges rs = ofRanges ts := by
  rw [ofRanges_eq_unionAll, ofRanges_eq_unionAll]
  refine unionAll_congr ?_
  intro s
  simp only [List.mem_map, same]

end CharClass

end RegularGrammar
