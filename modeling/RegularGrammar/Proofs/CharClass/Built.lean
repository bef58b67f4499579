import RegularGrammar.Proofs.CharClass.Sweep

/-!
# Classes that are built

The classes that any number of operations can lead to. Their ranges are always in
order, so halving finds every value of them.
-/

namespace RegularGrammar.CharClass

/-- What the operations on classes can build, each from classes built before. -/
inductive Built : CharClass → Prop where
  | empty : Built empty
  | ofRanges (rs : List CharRange) : Built (ofRanges rs)
  | full : Built full
  | ofRange (r : CharRange) : Built (ofRange r)
  | ofChar (c : Char) : Built (ofChar c)
  | union {s t : CharClass} : Built s → Built t → Built (s.union t)
  | complement {s t : CharClass} : Built s → s.complement? = some t → Built t

theorem Built.ascending {s : CharClass} (h : s.Built) : s.Ascending := by
  induction h with
  | empty => exact empty_ascending
  | ofRanges rs => exact ofRanges_ascending
  | full => exact ofRange_ascending
  | ofRange r => exact ofRange_ascending
  | ofChar c => exact ofRange_ascending
  | union _ _ first _ => exact union_ascending first
  | complement _ found inside => exact complement?_ascending inside found

theorem contains_eq_false_iff {s : CharClass} (h : s.Ascending) {c : Char} : s.contains c = false ↔ c ∉ s := by
  rw [← contains_iff h, Bool.not_eq_true]

theorem contains_union {s t : CharClass} (left : s.Ascending) (right : t.Ascending) (c : Char) :
    (s.union t).contains c = (s.contains c || t.contains c) := by
  rw [Bool.eq_iff_iff, Bool.or_eq_true, contains_iff (union_ascending left), contains_iff left, contains_iff right,
    mem_union]

theorem contains_complement? {s t : CharClass} (h : s.Ascending) (found : s.complement? = some t) (c : Char) :
    t.contains c = !s.contains c := by
  rw [Bool.eq_iff_iff, Bool.not_eq_true', contains_iff (complement?_ascending h found), contains_eq_false_iff h,
    mem_complement? h found]

theorem mem_between_iff {a b c : Char} : c ∈ CharRange.between a b ↔ a ≤ c ∧ c ≤ b ∨ b ≤ c ∧ c ≤ a := by
  unfold CharRange.between
  split
  · rename_i ordered
    refine (or_iff_left_of_imp ?_).symm
    rintro ⟨fromB, toA⟩
    exact ⟨Std.le_trans ordered fromB, Std.le_trans toA ordered⟩
  · rename_i notOrdered
    have ordered : b ≤ a := (Char.le_total a b).resolve_left notOrdered
    refine (or_iff_right_of_imp ?_).symm
    rintro ⟨fromA, toB⟩
    exact ⟨Std.le_trans ordered fromA, Std.le_trans toB ordered⟩

theorem contains_ofRanges (ends : List (Char × Char)) (c : Char) :
    (ofRanges (ends.map fun e => .between e.1 e.2)).contains c = true ↔
      ∃ e ∈ ends, e.1 ≤ c ∧ c ≤ e.2 ∨ e.2 ≤ c ∧ c ≤ e.1 := by
  rw [contains_iff ofRanges_ascending, mem_ofRanges]
  constructor
  · rintro ⟨_, member, inside⟩
    obtain ⟨e, isEnds, rfl⟩ := List.mem_map.mp member
    exact ⟨e, isEnds, mem_between_iff.mp inside⟩
  · rintro ⟨e, isEnds, inside⟩
    exact ⟨_, List.mem_map_of_mem isEnds, mem_between_iff.mpr inside⟩

/-- Whatever operations have built a class, its ranges are in order and share no value, halving finds exactly the
    values in them, and it finds in a union, a complement or a class of ranges what belongs there. -/
theorem contains_built :
    (∀ s : CharClass, s.Built →
      (∀ r ∈ s.ranges, r.lo ≤ r.hi) ∧ s.ranges.Pairwise (fun r t => r.hi < t.lo) ∧
      (∀ c, s.contains c = true ↔ ∃ r ∈ s.ranges, r.lo ≤ c ∧ c ≤ r.hi) ∧
      (s.isEmpty = true ↔ ∀ c, s.contains c = false) ∧
      (s.isFull = true ↔ ∀ c, s.contains c = true) ∧
      (∀ t, s.complement? = some t → ∀ c, t.contains c = !s.contains c) ∧
      ∀ t : CharClass, t.Built →
        s.union t = s.sweep t ∧ ∀ c, (s.union t).contains c = (s.contains c || t.contains c)) ∧
    ∀ (ends : List (Char × Char)) (c : Char),
      (ofRanges (ends.map fun e => .between e.1 e.2)).contains c = true ↔
        ∃ e ∈ ends, e.1 ≤ c ∧ c ≤ e.2 ∨ e.2 ≤ c ∧ c ≤ e.1 := by
  refine ⟨fun s built => ?_, contains_ofRanges⟩
  have ascending := built.ascending
  refine ⟨fun r _ => r.lo_le_hi, ascending, fun c => contains_iff ascending, ?_, ?_,
    fun t => contains_complement? ascending, fun t other => ?_⟩
  · simp only [isEmpty_iff, contains_eq_false_iff ascending]
  · simp only [isFull_iff ascending, contains_iff ascending]
  · exact ⟨union_eq_sweep ascending other.ascending, contains_union ascending other.ascending⟩

/-- What is left by `a` to `c` and `e`, and by the last value before the surrogates. -/
def leftOut : CharClass := ⟨[.between '\x00' '\x60', .single 'd', .between 'f' '\uD7FE', .between '\uE000' Scalar.last]⟩

theorem contains_built_leftOut : leftOut.Built ∧
    (∀ c, leftOut.contains c = true ↔ ∃ r ∈ leftOut.ranges, r.lo ≤ c ∧ c ≤ r.hi) ∧
    ∀ c, (leftOut.union (.ofChar 'b')).contains c = (leftOut.contains c || (ofChar 'b').contains c) := by
  have classes : (((ofRanges [.between 'c' 'b', .single 'b', .between 'b' 'a']).union (.ofChar 'e')).union
      (.ofChar '\uD7FF')).complement? = some leftOut := by decide
  have built : leftOut.Built := .complement (.union (.union (.ofRanges _) (.ofChar _)) (.ofChar _)) classes
  obtain ⟨-, -, contains, -, -, -, union⟩ := contains_built.1 leftOut built
  exact ⟨built, contains, (union _ (.ofChar 'b')).2⟩

end RegularGrammar.CharClass
