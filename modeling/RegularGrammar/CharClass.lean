import RegularGrammar.CharRange

/-!
# Character classes

A class is a set of scalar values, kept as a list of ranges in ascending order
that share no value. Ranges that overlap are always merged; ranges that merely
touch stay apart, so the class of `a`, `b` and `c` keeps three ranges.
-/

namespace RegularGrammar

/-- A set of scalar values, held as ranges. -/
structure CharClass where
  ranges : List CharRange
deriving DecidableEq

namespace CharClass

/-- The ranges ascend, and no two of them share a value. -/
def Ascending (s : CharClass) : Prop := s.ranges.Pairwise CharRange.Before

instance : Membership Char CharClass := ⟨fun s c => ∃ r ∈ s.ranges, c ∈ r⟩

theorem mem_def {s : CharClass} {c : Char} : c ∈ s ↔ ∃ r ∈ s.ranges, c ∈ r := Iff.rfl

/-- The class of no value. -/
def empty : CharClass := ⟨[]⟩

/-- The class of one range. -/
def ofRange (r : CharRange) : CharClass := ⟨[r]⟩

/-- The class of one value. -/
def ofChar (c : Char) : CharClass := ofRange (.single c)

/-- The class of all values. -/
def full : CharClass := ofRange (.between Scalar.first Scalar.last)

/-- Puts a range among ascending ranges, merged with all those that it overlaps. -/
def insertRange (r : CharRange) : List CharRange → List CharRange
  | [] => [r]
  | s :: rest =>
    if r.Before s then r :: s :: rest
    else if s.Before r then s :: insertRange r rest
    else insertRange (r.hull s) rest

/-- `s` with the values of a range. -/
def insert (s : CharClass) (r : CharRange) : CharClass := ⟨insertRange r s.ranges⟩

/-- The values of either class. -/
def union (s t : CharClass) : CharClass := t.ranges.foldl insert s

/-- The values of any of the ranges, which may stand in any order. -/
def ofRanges (rs : List CharRange) : CharClass := rs.foldl (fun s r => s.union (ofRange r)) empty

/-- The values of any of the classes. -/
def unionAll (ss : List CharClass) : CharClass := ss.foldl union empty

/-- The gap from `start` to a range, if there is room. -/
def gapBefore (start : Char) (r : CharRange) : List CharRange :=
  if start < r.lo then (Scalar.prev? r.lo).toList.map (CharRange.between start) else []

/-- The gaps that ascending ranges leave among the values from `start` on; without a
    start there are no values left. -/
def gapsFrom : Option Char → List CharRange → List CharRange
  | none, _ => []
  | some start, [] => [.between start Scalar.last]
  | some start, r :: rest => gapBefore start r ++ gapsFrom (Scalar.next? r.hi) rest

/-- The values outside the class, unless there are none. -/
def complement? (s : CharClass) : Option CharClass :=
  match gapsFrom (some Scalar.first) s.ranges with
  | [] => none
  | gaps => some ⟨gaps⟩

/-- Finds the range of `c` among ascending ranges by halving them. -/
def search (c : Char) (rs : List CharRange) : Bool :=
  match h : rs.drop (rs.length / 2) with
  | [] => false
  | r :: after =>
    if r.hi < c then search c after
    else if c < r.lo then search c (rs.take (rs.length / 2))
    else true
termination_by rs.length
decreasing_by
  · have := congrArg List.length h
    simp only [List.length_drop, List.length_cons] at this
    omega
  · have := congrArg List.length h
    simp only [List.length_drop, List.length_cons] at this
    simp only [List.length_take]
    omega

/-- Whether `c` is in the class. -/
def contains (s : CharClass) (c : Char) : Bool := search c s.ranges

/-- Whether the class holds no value. -/
def isEmpty (s : CharClass) : Bool := s.ranges.isEmpty

/-- Whether the class holds every value. -/
def isFull (s : CharClass) : Bool := s.complement?.isNone

end CharClass

end RegularGrammar
