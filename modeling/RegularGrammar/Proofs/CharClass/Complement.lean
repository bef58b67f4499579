import Mathlib.Data.List.Pairwise
import RegularGrammar.Proofs.CharClass.Union
import RegularGrammar.Regex

/-!
# Complements, range by range

The ranges of a complement are the gaps that a class leaves. Between two gaps lies a
range of the class, so no two of them touch, and a class whose ranges do not touch is
told by its values alone. Therefore a complement depends on nothing but the values of
its class, and the complement of a complement is the class with the ranges merged that
touch.
-/

namespace RegularGrammar

namespace CharRange

/-- `s` begins with the value right after the last one of `r`. -/
def Touches (r s : CharRange) : Prop := Scalar.next? r.hi = some s.lo

instance (r s : CharRange) : Decidable (r.Touches s) := inferInstanceAs (Decidable (Scalar.next? r.hi = some s.lo))

/-- Some value lies after `r` and before `s`. -/
def Apart (r s : CharRange) : Prop := ∃ c, r.hi < c ∧ c < s.lo

variable {r s : CharRange} {c : Char}

@[simp]
theorem not_before_self (r : CharRange) : ¬ r.Before r := Char.not_lt.mpr r.lo_le_hi

theorem Apart.before (h : r.Apart s) : r.Before s := by
  obtain ⟨c, after, before⟩ := h
  exact Std.lt_trans after before

theorem Touches.before (h : r.Touches s) : r.Before s := (Scalar.lt_iff_of_next? h).mpr (Char.le_refl _)

/-- One range after another either touches it or leaves a value between the two. -/
theorem apart_iff : r.Apart s ↔ r.Before s ∧ ¬ r.Touches s := by
  constructor
  · rintro ⟨c, after, before⟩
    refine ⟨Std.lt_trans after before, ?_⟩
    intro touches
    exact Char.not_le.mpr before ((Scalar.lt_iff_of_next? touches).mp after)
  · rintro ⟨before, apart⟩
    cases next : Scalar.next? r.hi with
    | none => exact absurd before (Char.not_lt.mpr (Scalar.le_of_next?_eq_none next))
    | some d =>
      have after : r.hi < d := (Scalar.lt_iff_of_next? next).mpr (Char.le_refl d)
      have reaches : d ≤ s.lo := (Scalar.lt_iff_of_next? next).mp before
      refine ⟨d, after, Std.lt_of_le_of_ne reaches ?_⟩
      rintro rfl
      exact apart next

theorem lo_hull (h : r.Before s) : (r.hull s).lo = r.lo := if_pos (Std.le_trans r.lo_le_hi (Std.le_of_lt h))

theorem hi_hull (h : r.Before s) : (r.hull s).hi = s.hi := if_pos (Std.le_trans (Std.le_of_lt h) s.lo_le_hi)

variable {a b : Char}

/-- A range that holds a value but not the one after it ends there. -/
theorem hi_eq_of_next? (next : Scalar.next? a = some b) (inside : a ∈ r) (outside : b ∉ r) : r.hi = a := by
  by_cases below : a < r.hi
  · have after : a < b := (Scalar.lt_iff_of_next? next).mpr (Char.le_refl b)
    have reached : b ≤ r.hi := (Scalar.lt_iff_of_next? next).mp below
    exact absurd ⟨Std.le_trans inside.1 (Std.le_of_lt after), reached⟩ outside
  · exact Char.le_antisymm (Char.not_lt.mp below) inside.2

/-- A range that holds a value but not the one before it begins there. -/
theorem lo_eq_of_next? (next : Scalar.next? a = some b) (inside : b ∈ s) (outside : a ∉ s) : s.lo = b := by
  by_cases above : a < s.lo
  · exact Char.le_antisymm inside.1 ((Scalar.lt_iff_of_next? next).mp above)
  · have after : a < b := (Scalar.lt_iff_of_next? next).mpr (Char.le_refl b)
    exact absurd ⟨Char.not_lt.mp above, Std.le_trans (Std.le_of_lt after) inside.2⟩ outside

/-- The hull of two ranges that touch holds no other value. -/
theorem mem_hull_of_touches (h : r.Touches s) : c ∈ r.hull s ↔ c ∈ r ∨ c ∈ s := by
  have before : r.hi < s.lo := h.before
  simp only [mem_def, lo_hull h.before, hi_hull h.before]
  constructor
  · rintro ⟨above, below⟩
    by_cases after : r.hi < c
    · exact .inr ⟨(Scalar.lt_iff_of_next? h).mp after, below⟩
    · exact .inl ⟨above, Char.not_lt.mp after⟩
  · rintro (⟨above, below⟩ | ⟨above, below⟩)
    · exact ⟨above, Std.le_trans below (Std.le_trans (Std.le_of_lt before) s.lo_le_hi)⟩
    · exact ⟨Std.le_trans r.lo_le_hi (Std.le_trans (Std.le_of_lt before) above), below⟩

end CharRange

namespace CharClass

open CharRange (Before Apart Touches lo_mem)
open Scalar (Near)

/-- Between any two ranges lies a value that is in neither. -/
def Spaced (s : CharClass) : Prop := s.ranges.Pairwise Apart

variable {s t u : CharClass} {r : CharRange} {rs : List CharRange} {a b c : Char}

theorem Spaced.ascending (h : s.Spaced) : s.Ascending := h.imp Apart.before

/-- The ranges of a class leave values between them exactly if no two of them touch. -/
theorem spaced_iff (ascending : s.Ascending) : s.Spaced ↔ ∀ r ∈ s.ranges, ∀ v ∈ s.ranges, ¬ r.Touches v := by
  constructor
  · intro spaced
    have symmetric : Std.Symm fun r v : CharRange => ¬ r.Touches v ∧ ¬ v.Touches r := ⟨fun _ _ => And.symm⟩
    have free : s.ranges.Pairwise fun r v => ¬ r.Touches v ∧ ¬ v.Touches r := by
      refine spaced.imp ?_
      intro r v apart
      exact ⟨(CharRange.apart_iff.mp apart).2, fun touches => v.not_before_self (touches.before.trans apart.before)⟩
    have itself (r : CharRange) : ¬ r.Touches r := fun touches => r.not_before_self touches.before
    intro r first v second
    exact (free.forall_of_forall (fun r _ => ⟨itself r, itself r⟩) first second).1
  · intro free
    refine List.Pairwise.imp_of_mem ?_ ascending
    intro r v first second before
    exact CharRange.apart_iff.mpr ⟨before, free r first v second⟩

/-- Neighbours that are in a class whose ranges do not touch are in one range of it. -/
theorem Spaced.joins_iff (h : s.Spaced) (near : Near a b) : s.Joins a b ↔ a ∈ s ∧ b ∈ s := by
  constructor
  · rintro ⟨r, member, inA, inB⟩
    exact ⟨⟨r, member, inA⟩, r, member, inB⟩
  · rintro ⟨⟨r, first, inA⟩, v, second, inB⟩
    rcases near with rfl | next
    · exact ⟨r, first, inA, inA⟩
    by_cases inFirst : b ∈ r
    · exact ⟨r, first, inA, inFirst⟩
    by_cases inSecond : a ∈ v
    · exact ⟨v, second, inSecond, inB⟩
    have touches : r.Touches v := by
      rw [Touches, CharRange.hi_eq_of_next? next inA inFirst, CharRange.lo_eq_of_next? next inB inSecond]
      exact next
    exact absurd touches ((spaced_iff h.ascending).mp h r first v second)

/-- Classes with the same values have the same ranges if no ranges in them touch. -/
theorem Spaced.eq_of_mem (left : s.Spaced) (right : t.Spaced) (same : ∀ c, c ∈ s ↔ c ∈ t) : s = t := by
  refine eq_of_joins left.ascending right.ascending ?_
  intro a b near
  rw [left.joins_iff near, right.joins_iff near, same, same]

theorem complement?_spaced (ascending : s.Ascending) (found : s.complement? = some t) : t.Spaced := by
  refine (complement?_between ascending found).imp ?_
  rintro g h ⟨r, -, before, after⟩
  exact ⟨r.lo, before, Std.lt_of_le_of_lt r.lo_le_hi after⟩

/-- A complement depends on the values of its class alone. -/
theorem complement?_congr (left : s.Ascending) (right : t.Ascending) (same : ∀ c, c ∈ s ↔ c ∈ t) :
    s.complement? = t.complement? := by
  cases first : s.complement? with
  | none =>
    have all := (complement?_eq_none_iff left).mp first
    exact ((complement?_eq_none_iff right).mpr fun c => (same c).mp (all c)).symm
  | some u =>
    cases second : t.complement? with
    | none =>
      have all := (complement?_eq_none_iff right).mp second
      rw [(complement?_eq_none_iff left).mpr fun c => (same c).mpr (all c)] at first
      cases first
    | some v =>
      refine congrArg some ((complement?_spaced left first).eq_of_mem (complement?_spaced right second) ?_)
      intro c
      rw [mem_complement? left first, mem_complement? right second, same]

/-- Ascending ranges, `r` the first of them, where those that touch are merged. -/
def mergeFrom (r : CharRange) : List CharRange → List CharRange
  | [] => [r]
  | s :: rest => if r.Touches s then mergeFrom (r.hull s) rest else r :: mergeFrom s rest

/-- A class with the ranges merged that touch. -/
def merged (s : CharClass) : CharClass :=
  match s.ranges with
  | [] => empty
  | r :: rest => ⟨mergeFrom r rest⟩

@[simp]
theorem mem_mergeFrom : (∃ s ∈ mergeFrom r rs, c ∈ s) ↔ ∃ s ∈ r :: rs, c ∈ s := by
  fun_induction mergeFrom r rs with
  | case1 r => rfl
  | case2 r s rest touches ih =>
    rw [ih, mem_cons_ranges, CharRange.mem_hull_of_touches touches, mem_cons_ranges, mem_cons_ranges]
    exact or_assoc
  | case3 r s rest apart ih => rw [mem_cons_ranges, ih, ← mem_cons_ranges]

theorem mergeFrom_apart (ascending : (r :: rs).Pairwise Before) : (mergeFrom r rs).Pairwise Apart := by
  fun_induction mergeFrom r rs with
  | case1 r => exact List.pairwise_singleton ..
  | case2 r s rest touches ih =>
    have ⟨_, others⟩ := List.pairwise_cons.mp ascending
    exact ih (pairwise_cons_of_le (Std.le_of_eq (CharRange.hi_hull touches.before)) others)
  | case3 r s rest notTouches ih =>
    have ⟨first, others⟩ := List.pairwise_cons.mp ascending
    refine List.pairwise_cons.mpr ⟨?_, ih others⟩
    intro t member
    -- What is merged after `r` begins no sooner than `s`, which is apart from `r`.
    have begins : s.lo ≤ t.lo := lo_le_of_mem others (mem_mergeFrom.mp ⟨t, member, lo_mem t⟩)
    obtain ⟨d, after, before⟩ := CharRange.apart_iff.mpr ⟨first s List.mem_cons_self, notTouches⟩
    exact ⟨d, after, Std.lt_of_lt_of_le before begins⟩

@[simp]
theorem mem_merged : c ∈ s.merged ↔ c ∈ s := by
  obtain ⟨rs⟩ := s
  cases rs with
  | nil => rfl
  | cons r rest => exact mem_mergeFrom

theorem merged_spaced (ascending : s.Ascending) : s.merged.Spaced := by
  obtain ⟨rs⟩ := s
  cases rs with
  | nil => exact .nil
  | cons r rest => exact mergeFrom_apart ascending

/-- Only a class with ranges that touch changes when they are merged. -/
theorem merged_eq_self_iff (ascending : s.Ascending) : s.merged = s ↔ s.Spaced := by
  constructor
  · intro same
    rw [← same]
    exact merged_spaced ascending
  · intro spaced
    refine (merged_spaced ascending).eq_of_mem spaced ?_
    intro c
    exact mem_merged

/-- A class of some values is the complement of its complement, but for ranges that touch. -/
theorem complement?_complement? (ascending : s.Ascending) (inhabited : ∃ c, c ∈ s) (found : s.complement? = some t) :
    t.complement? = some s.merged := by
  have outside := complement?_ascending ascending found
  cases again : t.complement? with
  | none =>
    obtain ⟨c, inside⟩ := inhabited
    have all := (complement?_eq_none_iff outside).mp again c
    exact absurd inside ((mem_complement? ascending found).mp all)
  | some u =>
    refine congrArg some ((complement?_spaced outside again).eq_of_mem (merged_spaced ascending) ?_)
    intro c
    simp [mem_complement? outside again, mem_complement? ascending found]

theorem ofClass_eq_any_iff (ascending : s.Ascending) : Regex.ofClass s = .any ↔ ∀ c, s.contains c = true := by
  simp only [contains_iff ascending, ← isFull_iff ascending, Regex.ofClass]
  split
  · rename_i full
    simp [full]
  · rename_i notFull
    simp [notFull]

/-- A class that is built has no complement just if it holds every value, and then it is written as any character.
    Otherwise its complement holds the values outside of it, in ascending ranges with values between them that it does
    not hold, whatever ranges the class itself is made of. The complement of the complement is the class with the
    ranges merged that touch, so it is the class itself just if none do. -/
theorem complement?_canonical (s : CharClass) (built : s.Built) :
    (s.complement? = none ↔ ∀ c, s.contains c = true) ∧
    (∀ t, s.complement? = some t →
      (∀ g ∈ t.ranges, g.lo ≤ g.hi) ∧
      t.ranges.Pairwise (fun g h => g.hi < h.lo ∧ ∃ c, g.hi < c ∧ c < h.lo ∧ c ∉ t) ∧
      ∀ c, c ∈ t ↔ c ∉ s) ∧
    (∀ t : CharClass, t.Built → (∀ c, c ∈ s ↔ c ∈ t) → s.complement? = t.complement?) ∧
    (s.isEmpty = false → s.isFull = false →
      ∃ t, s.complement? = some t ∧ t.complement? = some s.merged ∧
        (t.complement? = some s ↔ ∀ r ∈ s.ranges, ∀ v ∈ s.ranges, Scalar.next? r.hi ≠ some v.lo)) ∧
    (Regex.ofClass s = .any ↔ ∀ c, s.contains c = true) := by
  have ascending := built.ascending
  refine ⟨?_, ?_, ?_, ?_, ofClass_eq_any_iff ascending⟩
  · simp only [complement?_eq_none_iff ascending, contains_iff ascending]
  · intro t found
    refine ⟨fun g _ => g.lo_le_hi, ?_, fun c => mem_complement? ascending found⟩
    refine (complement?_between ascending found).imp ?_
    rintro g h ⟨r, member, before, after⟩
    have inside : r.lo ∈ s := ⟨r, member, lo_mem r⟩
    refine ⟨before.trans after, r.lo, before, Std.lt_of_le_of_lt r.lo_le_hi after, ?_⟩
    intro outside
    exact (mem_complement? ascending found).mp outside inside
  · intro t other same
    exact complement?_congr ascending other.ascending same
  · intro notEmpty notFull
    have inhabited : ∃ c, c ∈ s := by
      rw [← Bool.not_eq_true, isEmpty_iff] at notEmpty
      simpa using notEmpty
    obtain ⟨t, found⟩ : ∃ t, s.complement? = some t := by
      rw [isFull, Option.isNone_eq_false_iff] at notFull
      exact Option.isSome_iff_exists.mp notFull
    have again := complement?_complement? ascending inhabited found
    refine ⟨t, found, again, ?_⟩
    rw [again, Option.some.injEq, merged_eq_self_iff ascending, spaced_iff ascending]
    rfl

/-- Two pairs of ranges that touch, one of them across the surrogates. -/
def touching : CharClass := ofRanges [.single '\uE000', .between 'c' 'a', .single 'd', .between '\uD000' '\uD7FF']

theorem complement?_canonical_touching :
    touching.isEmpty = false ∧ touching.isFull = false ∧
    touching.complement? = (ofRanges [.between 'a' 'd', .between '\uD000' '\uE000']).complement? ∧
    ∃ t, touching.complement? = some t ∧
      t.ranges.Pairwise (fun g h => g.hi < h.lo ∧ ∃ c, g.hi < c ∧ c < h.lo ∧ c ∉ t) ∧
      t.complement? = some ⟨[.between 'a' 'd', .between '\uD000' '\uE000']⟩ ∧ t.complement? ≠ some touching := by
  have notEmpty : touching.isEmpty = false := by decide
  have notFull : touching.isFull = false := by decide
  have whole : touching.merged = ⟨[.between 'a' 'd', .between '\uD000' '\uE000']⟩ := by decide
  obtain ⟨-, gaps, values, twice, -⟩ := complement?_canonical touching (.ofRanges _)
  obtain ⟨t, found, again, itself⟩ := twice notEmpty notFull
  refine ⟨notEmpty, notFull, values _ (.ofRanges _) ?_, t, found, (gaps t found).2.1, whole ▸ again, ?_⟩
  · intro c
    rw [← mem_merged, whole]
    rfl
  · rw [ne_eq, itself]
    decide

end CharClass

end RegularGrammar
