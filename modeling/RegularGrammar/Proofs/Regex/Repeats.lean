import Mathlib.Data.List.Chain
import RegularGrammar.Regex.Meaning

/-!
# Collapsed repeats

An expression and its own repetition right after it match what the repetition of at
least once matches, so a pass that puts one in place of the two changes no match. The
pass compares each expression with the latest one of its own output, which may have come
out of such a pair itself, and leaves no pair behind. Siblings without a pair stay as
they are, so a second pass changes nothing.
-/

namespace RegularGrammar.Regex

theorem spansThrough_collapseFrom {subject : List Char} {x : Regex} {rest : List Regex} {i j : Nat} :
    SpansThrough subject (collapseFrom x rest) i j ↔ SpansThrough subject (x :: rest) i j := by
  fun_induction collapseFrom x rest generalizing i with
  | case1 => rfl
  | case2 y rest ih =>
    rw [ih]
    simp only [SpansThrough, Spans]
    constructor
    · rintro ⟨k, ⟨m, once, repeated⟩, others⟩
      exact ⟨m, once, k, repeated, others⟩
    · rintro ⟨m, once, k, repeated, others⟩
      exact ⟨k, ⟨m, once, repeated⟩, others⟩
  | case3 x y rest different ih => simp only [SpansThrough, ih]
  | case4 x y rest notStar ih => simp only [SpansThrough, ih]

/-- Collapsing repeats changes no match. -/
@[simp]
theorem spansThrough_collapseRepeats {subject : List Char} {rs : List Regex} {i j : Nat} :
    SpansThrough subject (collapseRepeats rs) i j ↔ SpansThrough subject rs i j := by
  cases rs with
  | nil => rfl
  | cons x rest => exact spansThrough_collapseFrom

def IsPlus (r : Regex) : Prop := ∃ body, r = .plus body

/-- The first item stays the first, or becomes a repetition of at least once. -/
theorem head?_collapseFrom (x : Regex) (rest : List Regex) :
    ∃ y, (collapseFrom x rest).head? = some y ∧ (y = x ∨ y.IsPlus) := by
  fun_induction collapseFrom x rest with
  | case1 x => exact ⟨x, rfl, .inl rfl⟩
  | case2 y rest ih =>
    obtain ⟨z, first, same | isPlus⟩ := ih
    · exact ⟨z, first, .inr ⟨y, same⟩⟩
    · exact ⟨z, first, .inr isPlus⟩
  | case3 x y rest different ih => exact ⟨x, rfl, .inl rfl⟩
  | case4 x y rest notStar ih => exact ⟨x, rfl, .inl rfl⟩

theorem collapseFrom_isChain (x : Regex) (rest : List Regex) :
    (collapseFrom x rest).IsChain fun x y => y ≠ .star x := by
  -- What follows an item was not its repetition, and has not become it.
  have next (x y : Regex) (rest : List Regex) (different : y ≠ .star x) :
      ∀ z ∈ (collapseFrom y rest).head?, z ≠ .star x := by
    intro z first
    obtain ⟨w, first', same | ⟨body, isPlus⟩⟩ := head?_collapseFrom y rest
    · rw [first', same] at first
      cases first
      exact different
    · rw [first', isPlus] at first
      cases first
      simp
  fun_induction collapseFrom x rest with
  | case1 x => exact List.isChain_singleton x
  | case2 y rest ih => exact ih
  | case3 x y rest different ih =>
    refine List.isChain_cons.mpr ⟨next x (.star y) rest ?_, ih⟩
    intro same
    cases same
    exact different rfl
  | case4 x y rest notStar ih =>
    refine List.isChain_cons.mpr ⟨next x y rest ?_, ih⟩
    intro same
    exact notStar x same

/-- No item of collapsed siblings is followed by its own repetition. -/
theorem collapseRepeats_isChain (rs : List Regex) : (collapseRepeats rs).IsChain fun x y => y ≠ .star x := by
  cases rs with
  | nil => exact List.isChain_nil
  | cons x rest => exact collapseFrom_isChain x rest

theorem isChain_iff_no_pair {rs : List Regex} :
    (rs.IsChain fun x y => y ≠ .star x) ↔ ∀ before x after, rs ≠ before ++ x :: .star x :: after := by
  rw [List.isChain_iff_forall_rel_of_append_cons_cons]
  constructor
  · intro chain before x after split
    exact chain split rfl
  · rintro none x _ before after split rfl
    exact none before x after split

theorem collapseFrom_of_isChain {x : Regex} {rest : List Regex} (chain : (x :: rest).IsChain fun x y => y ≠ .star x) :
    collapseFrom x rest = x :: rest := by
  fun_induction collapseFrom x rest with
  | case1 => rfl
  | case2 y rest ih =>
    have different : Regex.star y ≠ .star y := (List.isChain_cons_cons.mp chain).1
    exact absurd rfl different
  | case3 x y rest different ih => rw [ih (List.isChain_cons_cons.mp chain).2]
  | case4 x y rest notStar ih => rw [ih (List.isChain_cons_cons.mp chain).2]

theorem collapseRepeats_of_isChain {rs : List Regex} (chain : rs.IsChain fun x y => y ≠ .star x) :
    collapseRepeats rs = rs := by
  cases rs with
  | nil => rfl
  | cons x rest => exact collapseFrom_of_isChain chain

/-- The output of a pass after one more expression, the latest first. A repetition of the latest takes its place,
    as a repetition of at least once. -/
def push (output : List Regex) (r : Regex) : List Regex :=
  match output, r with
  | x :: before, .star y => if x = y then .plus y :: before else .star y :: x :: before
  | output, r => r :: output

theorem push_of_ne {x r : Regex} {before : List Regex} (different : r ≠ .star x) :
    push (x :: before) r = r :: x :: before := by
  cases r with
  | star y =>
    rw [push, if_neg]
    rintro rfl
    exact different rfl
  | _ => rfl

theorem foldl_push_reverse (x : Regex) (before rest : List Regex) :
    (rest.foldl push (x :: before)).reverse = before.reverse ++ collapseFrom x rest := by
  fun_induction collapseFrom x rest generalizing before with
  | case1 x => rw [List.foldl_nil, List.reverse_cons]
  | case2 y rest ih =>
    have joined : push (y :: before) (.star y) = .plus y :: before := if_pos rfl
    rw [List.foldl_cons, joined, ih]
  | case3 x y rest different ih =>
    have other : Regex.star y ≠ .star x := by
      rintro ⟨⟩
      exact different rfl
    rw [List.foldl_cons, push_of_ne other, ih, List.reverse_cons, List.append_assoc, List.singleton_append]
  | case4 x y rest notStar ih =>
    rw [List.foldl_cons, push_of_ne (notStar x), ih, List.reverse_cons, List.append_assoc, List.singleton_append]

theorem collapseRepeats_eq_foldl (rs : List Regex) : collapseRepeats rs = (rs.foldl push []).reverse := by
  cases rs with
  | nil => rfl
  | cons x rest => exact (foldl_push_reverse x [] rest).symm

/-- The pass over siblings, one after the other onto the output, matches what they match. No expression is left right
    before its own repetition, siblings of which that holds stay as they are, and so a second pass changes nothing. -/
theorem collapseRepeats_exhaustive (rs : List Regex) :
    collapseRepeats rs = (rs.foldl push []).reverse ∧
    (∀ subject i j, Spans subject (.concat (collapseRepeats rs)) i j ↔ Spans subject (.concat rs) i j) ∧
    (∀ before x after, collapseRepeats rs ≠ before ++ x :: .star x :: after) ∧
    collapseRepeats (collapseRepeats rs) = collapseRepeats rs ∧
    ((∀ before x after, rs ≠ before ++ x :: .star x :: after) → collapseRepeats rs = rs) := by
  have chain := collapseRepeats_isChain rs
  refine ⟨collapseRepeats_eq_foldl rs, ?_, isChain_iff_no_pair.mp chain, collapseRepeats_of_isChain chain, ?_⟩
  · intro subject i j
    exact spansThrough_collapseRepeats
  · intro none
    exact collapseRepeats_of_isChain (isChain_iff_no_pair.mpr none)

/-- A letter and its repetition, a repetition of what becomes of the two, and that of the letter again. -/
def nested : List Regex := [.literal "a", .star (.literal "a"), .star (.plus (.literal "a")), .star (.literal "a")]

def nestedCollapsed : List Regex := [.plus (.plus (.literal "a")), .star (.literal "a")]

theorem collapseRepeats_exhaustive_nested :
    collapseRepeats nested = nestedCollapsed ∧ (nested.foldl push []).reverse = nestedCollapsed ∧
    (∀ subject i j, Spans subject (.concat nestedCollapsed) i j ↔ Spans subject (.concat nested) i j) ∧
    (∀ before x after, nestedCollapsed ≠ before ++ x :: .star x :: after) ∧
    collapseRepeats nestedCollapsed = nestedCollapsed := by
  have collapsed : collapseRepeats nested = nestedCollapsed := by cbv
  obtain ⟨pass, spans, noPair, -, -⟩ := collapseRepeats_exhaustive nested
  rw [collapsed] at pass spans noPair
  obtain ⟨-, -, -, -, unchanged⟩ := collapseRepeats_exhaustive nestedCollapsed
  exact ⟨collapsed, pass.symm, spans, noPair, unchanged noPair⟩

end RegularGrammar.Regex
