import RegularGrammar.CharClass.Lemmas

/-!
# Union by a sweep

The union of two classes can be found in one sweep over the bounds of their
ranges. Every bound leads into or out of its own class, and the bounds that lead
into or out of both classes together are those of the union. A range of one
value has it for both of its bounds, so a sweep may pass one value twice.
-/

namespace RegularGrammar.CharClass

open CharRange (Before)

/-- The bounds of ranges, each first one with its last one after it. -/
def bounds (rs : List CharRange) : List Char := rs.flatMap fun r => [r.lo, r.hi]

/-- A bound, if it is one between inside and outside. -/
def edge (before after : Bool) (c : Char) : List Char := if before = after then [] else [c]

/-- The bounds of the union, from the remaining bounds of a left and a right class and whether the
    sweep is inside of each. -/
def edges (inLeft inRight : Bool) : List Char → List Char → List Char
  | [], [] => []
  | l :: left, [] => edge (inLeft || inRight) (!inLeft || inRight) l ++ edges (!inLeft) inRight left []
  | [], r :: right => edge (inLeft || inRight) (inLeft || !inRight) r ++ edges inLeft (!inRight) [] right
  | l :: left, r :: right =>
    if l < r then edge (inLeft || inRight) (!inLeft || inRight) l ++ edges (!inLeft) inRight left (r :: right)
    else if r < l then edge (inLeft || inRight) (inLeft || !inRight) r ++ edges inLeft (!inRight) (l :: left) right
    else edge (inLeft || inRight) (!inLeft || !inRight) l ++ edges (!inLeft) (!inRight) left right
termination_by left right => left.length + right.length

/-- The ranges between bounds, two by two. -/
def paired : List Char → List CharRange
  | lo :: hi :: rest => .between lo hi :: paired rest
  | _ => []

theorem edges_comm (a b : Bool) (left right : List Char) : edges a b left right = edges b a right left := by
  fun_induction edges a b left right with
  | case1 => simp [edges]
  | case2 _ _ _ _ ih => simp [edges, ih, Bool.or_comm]
  | case3 _ _ _ _ ih => simp [edges, ih, Bool.or_comm]
  | case4 a b l left r right below ih =>
    have notAbove : ¬ r < l := Char.not_lt.mpr (Std.le_of_lt below)
    simp [edges, ih, below, notAbove, Bool.or_comm]
  | case5 a b l left r right notBelow above ih => simp [edges, ih, above, Bool.or_comm]
  | case6 a b l left r right notBelow notAbove ih =>
    have same : l = r := Char.le_antisymm (Char.not_lt.mp notAbove) (Char.not_lt.mp notBelow)
    simp [edges, ih, same, Bool.or_comm]

theorem edges_left {a b : Bool} {l : Char} {left right : List Char} (below : ∀ c ∈ right, l < c) :
    edges a b (l :: left) right = edge (a || b) (!a || b) l ++ edges (!a) b left right := by
  cases right with
  | nil => rw [edges]
  | cons r right => rw [edges, if_pos (below r List.mem_cons_self)]

theorem edges_right {a b : Bool} {r : Char} {left right : List Char} (below : ∀ c ∈ left, r < c) :
    edges a b left (r :: right) = edge (a || b) (a || !b) r ++ edges a (!b) left right := by
  rw [edges_comm, edges_left below, edges_comm, Bool.or_comm b, Bool.or_comm (!b)]

@[simp]
theorem edges_both {a b : Bool} {c : Char} {left right : List Char} :
    edges a b (c :: left) (c :: right) = edge (a || b) (!a || !b) c ++ edges (!a) (!b) left right := by
  rw [edges, if_neg (Char.lt_irrefl c), if_neg (Char.lt_irrefl c)]

theorem forall_lt_cons {c d : Char} {cs : List Char} (first : c < d) (later : ∀ e ∈ cs, d ≤ e) :
    ∀ e ∈ d :: cs, c < e := by
  intro e member
  rcases List.mem_cons.mp member with rfl | member
  · exact first
  · exact Std.lt_of_lt_of_le first (later e member)

theorem forall_le_cons {c d : Char} {cs : List Char} (first : c ≤ d) (later : ∀ e ∈ cs, d < e) :
    ∀ e ∈ d :: cs, c ≤ e := by
  intro e member
  rcases List.mem_cons.mp member with rfl | member
  · exact first
  · exact Std.le_trans first (Std.le_of_lt (later e member))

theorem forall_le_of_lt {c : Char} {cs : List Char} (later : ∀ e ∈ cs, c < e) : ∀ e ∈ cs, c ≤ e :=
  fun e member => Std.le_of_lt (later e member)

/-- Inside of both classes, the one that ends first makes no difference. -/
theorem edges_inside {l r : Char} {left right : List Char} (ordered : l ≤ r) (leftLater : ∀ c ∈ left, l < c)
    (rightLater : ∀ c ∈ right, r < c) :
    edges true true (l :: left) (r :: right) = edges false true left (r :: right) := by
  by_cases below : l < r
  · rw [edges_left (forall_lt_cons below (forall_le_of_lt rightLater))]
    rfl
  · have same : l = r := Char.le_antisymm ordered (Char.not_lt.mp below)
    rw [same, edges_both, edges_right (same ▸ leftLater)]
    rfl

/-- A range before all others is passed by itself. -/
theorem edges_before {r : CharRange} {left right : List Char} (below : ∀ c ∈ right, r.hi < c) :
    edges false false (r.lo :: r.hi :: left) right = r.lo :: r.hi :: edges false false left right := by
  rw [edges_left fun c member => Std.lt_of_le_of_lt r.lo_le_hi (below c member), edges_left below]
  rfl

section Overlap

variable {r s : CharRange} {left right : List Char} (leftLater : ∀ c ∈ left, r.hi < c)
  (rightLater : ∀ c ∈ right, s.hi < c) (ordered : r.hi ≤ s.hi)

include leftLater rightLater ordered

/-- Inside of a range, another one begins and ends no sooner. -/
theorem edges_begin (reaches : s.lo ≤ r.hi) :
    edges true false (r.hi :: left) (s.lo :: s.hi :: right) = edges false true left (s.hi :: right) := by
  by_cases below : s.lo < r.hi
  · rw [edges_right (forall_lt_cons below (forall_le_of_lt leftLater)), ← edges_inside ordered leftLater rightLater]
    rfl
  · have same : s.lo = r.hi := Char.le_antisymm reaches (Char.not_lt.mp below)
    rw [same, edges_both]
    rfl

/-- Inside of a range, another one that ends no later makes no difference. -/
theorem edges_pass : edges false true (r.lo :: r.hi :: left) (s.hi :: right) = edges false true left (s.hi :: right) := by
  by_cases below : r.lo < s.hi
  · rw [edges_left (forall_lt_cons below (forall_le_of_lt rightLater)), ← edges_inside ordered leftLater rightLater]
    rfl
  · -- Both ranges end where the inner one has its only value.
    have start : r.lo = s.hi := Char.le_antisymm (Std.le_trans r.lo_le_hi ordered) (Char.not_lt.mp below)
    have stop : r.hi = s.hi := Char.le_antisymm ordered (start ▸ r.lo_le_hi)
    rw [start, stop, edges_both, edges_right (stop ▸ leftLater), Bool.not_false, Bool.not_true, edges_left rightLater]
    rfl

/-- A range that reaches another which ends no sooner is passed as if it were a part of that one. -/
theorem edges_overlap (reaches : s.lo ≤ r.hi) :
    edges false false (r.lo :: r.hi :: left) (s.lo :: s.hi :: right) =
      edges false false left ((r.hull s).lo :: (r.hull s).hi :: right) := by
  have stop : (r.hull s).hi = s.hi := if_pos ordered
  have whole (before : (r.hull s).lo ≤ r.hi) : edges false false left ((r.hull s).lo :: (r.hull s).hi :: right) =
      (r.hull s).lo :: edges false true left (s.hi :: right) := by
    rw [edges_right fun c member => Std.lt_of_le_of_lt before (leftLater c member), stop]
    rfl
  by_cases first : r.lo < s.lo
  · have start : (r.hull s).lo = r.lo := if_pos (Std.le_of_lt first)
    have below := forall_lt_cons first (forall_le_cons s.lo_le_hi rightLater)
    rw [whole (start ▸ r.lo_le_hi), start, edges_left below, ← edges_begin leftLater rightLater ordered reaches]
    rfl
  by_cases second : s.lo < r.lo
  · have start : (r.hull s).lo = s.lo := if_neg (Char.not_le.mpr second)
    have below := forall_lt_cons second (forall_le_cons r.lo_le_hi leftLater)
    rw [whole (start ▸ reaches), start, edges_right below, ← edges_pass leftLater rightLater ordered]
    rfl
  · have same : r.lo = s.lo := Char.le_antisymm (Char.not_lt.mp second) (Char.not_lt.mp first)
    have start : (r.hull s).lo = s.lo := (if_pos (Std.le_of_eq same)).trans same
    rw [whole (start ▸ reaches), start, same, edges_both, ← edges_inside ordered leftLater rightLater]
    rfl

end Overlap

@[simp]
theorem bounds_cons (r : CharRange) (rs : List CharRange) : bounds (r :: rs) = r.lo :: r.hi :: bounds rs := rfl

@[simp]
theorem paired_cons (r : CharRange) (cs : List Char) : paired (r.lo :: r.hi :: cs) = r :: paired cs := by
  rw [paired, CharRange.between, dif_pos r.lo_le_hi]

/-- The bounds of later ranges come later. -/
theorem lt_bounds {r : CharRange} {rs : List CharRange} (later : ∀ s ∈ rs, r.Before s) : ∀ c ∈ bounds rs, r.hi < c := by
  intro c member
  obtain ⟨s, inside, isBound⟩ := List.mem_flatMap.mp member
  have before : r.hi < s.lo := later s inside
  rcases List.mem_cons.mp isBound with rfl | isLast
  · exact before
  · rw [List.mem_singleton.mp isLast]
    exact Std.lt_of_lt_of_le before s.lo_le_hi

theorem hull_comm (r s : CharRange) : r.hull s = s.hull r := by
  simp only [CharRange.hull, CharRange.mk.injEq]
  constructor <;> split <;> split <;> rename_i first second
  · exact Char.le_antisymm first second
  · rfl
  · rfl
  · exact absurd ((Char.le_total _ _).resolve_left first) second
  · exact Char.le_antisymm second first
  · rfl
  · rfl
  · exact absurd ((Char.le_total _ _).resolve_left first) second

/-- Ranges put among others, one after the other. -/
def insertRanges (rs ts : List CharRange) : List CharRange := ts.foldl (fun rs t => insertRange t rs) rs

theorem ranges_union (s t : CharClass) : (s.union t).ranges = insertRanges s.ranges t.ranges := by
  obtain ⟨ts⟩ := t
  induction ts generalizing s with
  | nil => rfl
  | cons t rest ih => exact ih (s.insert t)

/-- Ranges that come after the first one are put behind it. -/
theorem insertRanges_cons {r : CharRange} {ts : List CharRange} (later : ∀ t ∈ ts, r.Before t) (rs : List CharRange) :
    insertRanges (r :: rs) ts = r :: insertRanges rs ts := by
  induction ts generalizing rs with
  | nil => rfl
  | cons t rest ih =>
    have before := later t List.mem_cons_self
    have notAfter : ¬ t.Before r := fun after => Char.not_le.mpr (before.trans after) r.lo_le_hi
    have behind : insertRange t (r :: rs) = r :: insertRange t rs := by rw [insertRange, if_neg notAfter, if_pos before]
    calc insertRanges (r :: rs) (t :: rest)
      _ = insertRanges (r :: insertRange t rs) rest := by rw [← behind]; rfl
      _ = r :: insertRanges (insertRange t rs) rest := ih (fun u member => later u (List.mem_cons_of_mem _ member)) _

theorem insertRange_first {r : CharRange} {rs : List CharRange} (later : ∀ s ∈ rs, r.Before s) :
    insertRange r rs = r :: rs := by
  cases rs with
  | nil => rfl
  | cons s rest => rw [insertRange, if_pos (later s List.mem_cons_self)]

/-- The ranges that a sweep finds among the bounds of two lists. -/
def sweepRanges (rs ts : List CharRange) : List CharRange := paired (edges false false (bounds rs) (bounds ts))

theorem sweepRanges_comm (rs ts : List CharRange) : sweepRanges rs ts = sweepRanges ts rs := by
  rw [sweepRanges, edges_comm, ← sweepRanges]

@[simp]
theorem sweepRanges_nil : sweepRanges [] [] = [] := by
  simp [sweepRanges, bounds, edges, paired]

theorem sweepRanges_cons {r : CharRange} {rs ts : List CharRange} (later : ∀ t ∈ ts, r.Before t) :
    sweepRanges (r :: rs) ts = r :: sweepRanges rs ts := by
  rw [sweepRanges, bounds_cons, edges_before (lt_bounds later), paired_cons, ← sweepRanges]

theorem sweepRanges_overlap {r t : CharRange} {rs ts : List CharRange} (firstLater : ∀ s ∈ rs, r.Before s)
    (secondLater : ∀ s ∈ ts, t.Before s) (notBefore : ¬ r.Before t) (ordered : r.hi ≤ t.hi) :
    sweepRanges (r :: rs) (t :: ts) = sweepRanges rs (r.hull t :: ts) := by
  rw [sweepRanges, bounds_cons, bounds_cons,
    edges_overlap (lt_bounds firstLater) (lt_bounds secondLater) ordered (Char.not_lt.mp notBefore), ← bounds_cons,
    ← sweepRanges]

theorem pairwise_cons_of_le {r s : CharRange} {rs : List CharRange} (ordered : r.hi ≤ s.hi)
    (ascending : (s :: rs).Pairwise Before) : (r :: rs).Pairwise Before :=
  have ⟨later, others⟩ := List.pairwise_cons.mp ascending
  List.pairwise_cons.mpr ⟨fun t member => Std.lt_of_le_of_lt ordered (later t member), others⟩

/-- A sweep finds the ranges that come out when those of one class are put among those of the other. -/
theorem insertRanges_eq_sweepRanges (rs ts : List CharRange) (left : rs.Pairwise Before) (right : ts.Pairwise Before) :
    insertRanges rs ts = sweepRanges rs ts := by
  match rs, ts with
  | [], [] => exact sweepRanges_nil.symm
  | r :: rs, [] =>
    have ih := insertRanges_eq_sweepRanges rs [] (List.pairwise_cons.mp left).2 .nil
    rw [sweepRanges_cons (List.forall_mem_nil _), ← ih]
    rfl
  | [], t :: ts =>
    have ⟨secondLater, others⟩ := List.pairwise_cons.mp right
    have ih := insertRanges_eq_sweepRanges [] ts .nil others
    rw [sweepRanges_comm, sweepRanges_cons (List.forall_mem_nil _), sweepRanges_comm, ← ih,
      ← insertRanges_cons secondLater]
    rfl
  | r :: rs, t :: ts =>
    have ⟨firstLater, firstOthers⟩ := List.pairwise_cons.mp left
    have ⟨secondLater, secondOthers⟩ := List.pairwise_cons.mp right
    have put : insertRanges (r :: rs) (t :: ts) = insertRanges (insertRange t (r :: rs)) ts := rfl
    by_cases before : r.Before t
    · have later : ∀ u ∈ t :: ts, r.Before u :=
        List.forall_mem_cons.mpr ⟨before, fun u member => before.trans (secondLater u member)⟩
      rw [insertRanges_cons later, sweepRanges_cons later,
        insertRanges_eq_sweepRanges rs (t :: ts) firstOthers right]
    by_cases after : t.Before r
    · have later : ∀ u ∈ r :: rs, t.Before u :=
        List.forall_mem_cons.mpr ⟨after, fun u member => after.trans (firstLater u member)⟩
      rw [put, insertRange_first later, insertRanges_cons secondLater, sweepRanges_comm, sweepRanges_cons later,
        sweepRanges_comm, insertRanges_eq_sweepRanges (r :: rs) ts left secondOthers]
    have merged : insertRange t (r :: rs) = insertRange (t.hull r) rs := by
      rw [insertRange, if_neg after, if_neg before]
    by_cases ordered : r.hi ≤ t.hi
    · have stop : (r.hull t).hi ≤ t.hi := Std.le_of_eq (if_pos ordered)
      rw [put, merged, hull_comm, sweepRanges_overlap firstLater secondLater before ordered,
        ← insertRanges_eq_sweepRanges rs (r.hull t :: ts) firstOthers (pairwise_cons_of_le stop right)]
      rfl
    · have ordered : t.hi ≤ r.hi := (Char.le_total _ _).resolve_left ordered
      have stop : (t.hull r).hi ≤ r.hi := Std.le_of_eq (if_pos ordered)
      have ascending := pairwise_cons_of_le stop left
      rw [put, merged, insertRange_first (List.pairwise_cons.mp ascending).1, sweepRanges_comm,
        sweepRanges_overlap secondLater firstLater after ordered, sweepRanges_comm,
        insertRanges_eq_sweepRanges (t.hull r :: rs) ts ascending secondOthers]
termination_by rs.length + ts.length

/-- The class whose ranges a sweep finds among the bounds of two classes. -/
def sweep (s t : CharClass) : CharClass := ⟨sweepRanges s.ranges t.ranges⟩

theorem union_eq_sweep {s t : CharClass} (left : s.Ascending) (right : t.Ascending) : s.union t = s.sweep t := by
  rw [sweep, ← insertRanges_eq_sweepRanges s.ranges t.ranges left right, ← ranges_union]

end RegularGrammar.CharClass
