import Mathlib.Data.Finset.Card
import RegularGrammar.Proofs.Pattern.Printing
import RegularGrammar.Regex.Matching
import RegularGrammar.Regex.Meaning

/-!
# What matching finds

Following sets of positions is following each position in them. A repetition is
followed until no position is new, and since every round before adds one, there are
enough rounds (`Follows.closure`). So `isFoundIn` tells where an expression is found.
-/

namespace RegularGrammar.Regex

/-- All positions of a set lie in a text of some length. -/
def Fits (length positions : Nat) : Prop := ∀ i, positions.testBit i = true → i ≤ length

@[simp]
theorem testBit_positionsOf {property : Char → Bool} {subject : List Char} {i : Nat} :
    (positionsOf property subject).testBit i = true ↔ ∃ c, subject[i]? = some c ∧ property c = true := by
  induction subject generalizing i with
  | nil => simp [positionsOf]
  | cons c cs ih =>
    cases i with
    | zero => cases holds : property c <;> simp [positionsOf, holds]
    | succ i =>
      have halved : (positionsOf property (c :: cs)) / 2 = positionsOf property cs := by
        have small := Bool.toNat_lt (property c)
        rw [positionsOf]
        omega
      rw [Nat.testBit_add_one, halved, ih, List.getElem?_cons_succ]

/-- A function takes the positions in a set to all those that a step leads to. -/
structure Follows (length : Nat) (follow : Nat → Nat) (step : Nat → Nat → Prop) : Prop where
  testBit_iff : ∀ positions, Fits length positions →
    ∀ j, (follow positions).testBit j = true ↔ ∃ i, positions.testBit i = true ∧ step i j
  le : ∀ i j, i ≤ length → step i j → j ≤ length

section

variable {length : Nat} {follow next : Nat → Nat} {step later : Nat → Nat → Prop}

theorem Follows.fits (h : Follows length follow step) {positions : Nat} (fits : Fits length positions) :
    Fits length (follow positions) := by
  intro j reached
  obtain ⟨i, inside, leads⟩ := (h.testBit_iff positions fits j).mp reached
  exact h.le i j (fits i inside) leads

theorem Follows.congr (h : Follows length follow step) (same : ∀ i j, step i j ↔ later i j) :
    Follows length follow later := by
  have equal : step = later := by
    funext i j
    exact propext (same i j)
  exact equal ▸ h

theorem Follows.stay : Follows length (fun positions => positions) (fun i j => i = j) where
  testBit_iff positions _ j := by simp only [exists_eq_right]
  le i j inside same := same ▸ inside

theorem Follows.nowhere : Follows length (fun _ => 0) (fun _ _ => False) where
  testBit_iff positions _ j := by simp
  le i j _ impossible := impossible.elim

theorem Follows.comp (first : Follows length follow step) (second : Follows length next later) :
    Follows length (fun positions => next (follow positions)) (fun i j => ∃ k, step i k ∧ later k j) where
  testBit_iff positions fits j := by
    simp only [second.testBit_iff _ (first.fits fits), first.testBit_iff positions fits]
    constructor
    · rintro ⟨k, ⟨i, inside, leads⟩, last⟩
      exact ⟨i, inside, k, leads, last⟩
    · rintro ⟨i, inside, k, leads, last⟩
      exact ⟨k, ⟨i, inside, leads⟩, last⟩
  le i j inside := by
    rintro ⟨k, leads, last⟩
    exact second.le k j (first.le i k inside leads) last

theorem Follows.or (left : Follows length follow step) (right : Follows length next later) :
    Follows length (fun positions => follow positions ||| next positions) (fun i j => step i j ∨ later i j) where
  testBit_iff positions fits j := by
    simp only [Nat.testBit_or, Bool.or_eq_true, left.testBit_iff positions fits, right.testBit_iff positions fits,
      and_or_left, exists_or]
  le i j inside := by
    rintro (leads | leads)
    · exact left.le i j inside leads
    · exact right.le i j inside leads

/-- A mask keeps one position. -/
theorem Follows.only {place : Nat} (inside : place ≤ length) :
    Follows length (· &&& (1 <<< place)) (fun i j => i = place ∧ j = place) where
  testBit_iff positions _ j := by
    rw [Nat.testBit_and, Nat.one_shiftLeft, Nat.testBit_two_pow, Bool.and_eq_true, decide_eq_true_eq]
    constructor
    · rintro ⟨here, rfl⟩
      exact ⟨_, here, rfl, rfl⟩
    · rintro ⟨i, here, rfl, rfl⟩
      exact ⟨here, rfl⟩
  le i j _ := by
    rintro ⟨-, rfl⟩
    exact inside

/-- What a step keeps, repeated steps keep. -/
theorem Repeated.keeps {p : Nat → Prop} (kept : ∀ i j, p i → step i j → p j) {i j : Nat} (repeated : Repeated step i j)
    (holds : p i) : p j := by
  induction repeated with
  | done => exact holds
  | more first _ ih => exact ih (kept _ _ holds first)

/-- The positions of a text that lie in a set. -/
def held (length positions : Nat) : Finset Nat := (Finset.range (length + 1)).filter fun i => positions.testBit i = true

@[simp]
theorem mem_held {positions i : Nat} : i ∈ held length positions ↔ i ≤ length ∧ positions.testBit i = true := by
  rw [held, Finset.mem_filter, Finset.mem_range, Nat.lt_succ_iff]

theorem held_card_pos {positions : Nat} (fits : Fits length positions) (some : positions ≠ 0) :
    1 ≤ (held length positions).card := by
  obtain ⟨i, inside⟩ := Nat.exists_testBit_of_ne_zero some
  exact Finset.card_pos.mpr ⟨i, mem_held.mpr ⟨fits i inside, inside⟩⟩

/-- Where as many positions lie in a set as there are, all of them do. -/
theorem testBit_of_held_card {positions : Nat} (all : length + 1 ≤ (held length positions).card) {i : Nat}
    (inside : i ≤ length) : positions.testBit i = true := by
  have whole : held length positions = Finset.range (length + 1) := by
    refine Finset.eq_of_subset_of_card_le (Finset.filter_subset ..) ?_
    rw [Finset.card_range]
    exact all
  have member : i ∈ held length positions := whole ▸ Finset.mem_range.mpr (Nat.lt_succ_of_le inside)
  exact (mem_held.mp member).2

/-- A new position adds to the positions in a set. -/
theorem held_card_lt {positions more : Nat} (fits : Fits length (positions ||| more))
    (new : positions ||| more ≠ positions) :
    (held length positions).card < (held length (positions ||| more)).card := by
  obtain ⟨i, differs⟩ := Nat.exists_testBit_ne_of_ne new
  have outside : ¬ positions.testBit i = true := fun inside => differs (by simp [inside])
  have added : (positions ||| more).testBit i = true := by
    rw [Bool.not_eq_true] at outside
    rw [outside] at differs
    exact Bool.eq_true_of_not_eq_false differs
  refine Finset.card_lt_card (Finset.ssubset_iff_subset_ne.mpr ⟨?_, ?_⟩)
  · intro k member
    obtain ⟨inText, inside⟩ := mem_held.mp member
    exact mem_held.mpr ⟨inText, by simp [inside]⟩
  · intro same
    have member := mem_held.mpr ⟨fits i added, added⟩
    rw [← same] at member
    exact outside (mem_held.mp member).2

/-- With rounds for all positions that are not in a set yet, the closure is all that repeated steps reach. -/
theorem testBit_closure (h : Follows length follow step) {rounds positions : Nat} (fits : Fits length positions)
    (enough : positions ≠ 0 → length + 1 ≤ (held length positions).card + rounds) (j : Nat) :
    (closure follow rounds positions).testBit j = true ↔ ∃ i, positions.testBit i = true ∧ Repeated step i j := by
  induction rounds generalizing positions with
  | zero =>
    rw [closure]
    refine ⟨fun inside => ⟨j, inside, .done⟩, ?_⟩
    rintro ⟨i, inside, repeated⟩
    have some : positions ≠ 0 := by
      rintro rfl
      simp at inside
    exact testBit_of_held_card (enough some) (repeated.keeps h.le (fits i inside))
  | succ rounds ih =>
    have joined := Follows.or Follows.stay h
    rw [closure]
    split
    · rename_i closed
      -- No step leaves the set, so repeated steps do not leave it either.
      refine ⟨fun inside => ⟨j, inside, .done⟩, ?_⟩
      rintro ⟨i, inside, repeated⟩
      refine repeated.keeps (p := fun k => positions.testBit k = true) (fun k l here leads => ?_) inside
      rw [← closed]
      exact (joined.testBit_iff positions fits l).mpr ⟨k, here, .inr leads⟩
    · rename_i new
      -- The round adds a position, so the rounds that are left are enough for the others.
      have wider : Fits length (positions ||| follow positions) := joined.fits fits
      have grows := held_card_lt wider new
      rw [ih wider fun _ => ?_]
      · constructor
        · rintro ⟨k, reached, repeated⟩
          obtain ⟨i, inside, same | first⟩ := (joined.testBit_iff positions fits k).mp reached
          · exact ⟨i, inside, same ▸ repeated⟩
          · exact ⟨i, inside, .more first repeated⟩
        · rintro ⟨i, inside, repeated⟩
          exact ⟨i, by simp [inside], repeated⟩
      · have some : positions ≠ 0 := by
          rintro rfl
          have nothing : follow 0 = 0 := by
            refine Nat.eq_of_testBit_eq fun k => Bool.eq_iff_iff.mpr ?_
            simp [h.testBit_iff 0 fits]
          exact new (by simp [nothing])
        have before := enough some
        omega

theorem Follows.closure (h : Follows length follow step) :
    Follows length (closure follow length) (Repeated step) where
  testBit_iff positions fits j := by
    refine testBit_closure h fits (fun some => ?_) j
    have one := held_card_pos fits some
    omega
  le _ _ inside repeated := repeated.keeps h.le inside

end

variable {subject : List Char}

theorem follows_after {property : Char → Bool} {p : Char → Prop} (same : ∀ c, property c = true ↔ p c) :
    Follows subject.length (after subject property) (OneChar subject p) where
  testBit_iff positions _ j := by
    simp only [after, Nat.testBit_shiftLeft, Nat.testBit_and, Bool.and_eq_true, decide_eq_true_eq, testBit_positionsOf]
    constructor
    · rintro ⟨past, inside, c, here, holds⟩
      exact ⟨j - 1, inside, c, here, (same c).mp holds, by omega⟩
    · rintro ⟨i, inside, c, here, holds, rfl⟩
      exact ⟨by omega, inside, c, here, (same c).mpr holds⟩
  le i j _ := by
    rintro ⟨c, here, -, rfl⟩
    exact (List.getElem?_eq_some_iff.mp here).1

theorem follows_literal (text : List Char) :
    Follows subject.length (fun positions => text.foldl (fun reached c => after subject (· == c) reached) positions)
      (Stands subject text) := by
  induction text with
  | nil => exact Follows.stay.congr fun i j => by simp only [Stands, eq_comm]
  | cons c cs ih =>
    have here : Follows subject.length (after subject (· == c)) (OneChar subject (· = c)) :=
      follows_after fun e => by simp
    refine (here.comp ih).congr fun i j => ?_
    simp only [OneChar, Stands]
    constructor
    · rintro ⟨_, ⟨_, stands, rfl, rfl⟩, others⟩
      exact ⟨stands, others⟩
    · rintro ⟨stands, others⟩
      exact ⟨i + 1, ⟨c, stands, rfl, rfl⟩, others⟩

mutual

/-- Following the matches of an expression from all positions of a set at once. -/
theorem follows_ends : (r : Regex) → r.Printable → Follows subject.length (ends subject r) (Spans subject r)
  | .set s, h => follows_after fun _ => CharClass.contains_iff (CharClass.Built.ascending h)
  | .any, _ => follows_after fun _ => by simp
  | .literal text, _ => follows_literal text.toList
  | .concat items, h => follows_endsThrough items h
  | .star body, h => (follows_ends body h).closure
  | .plus body, h => (follows_ends body h).comp (follows_ends body h).closure
  | .opt body, h => Follows.stay.or (follows_ends body h)
  | .alt items, h => follows_endsOfAny items h.2
  | .beginText, _ => Follows.only (Nat.zero_le _)
  | .endText, _ => Follows.only (Nat.le_refl _)

theorem follows_endsThrough : (rs : List Regex) → PrintableAll rs →
    Follows subject.length (endsThrough subject rs) (SpansThrough subject rs)
  | [], _ => Follows.stay
  | r :: rest, h => (follows_ends r h.1).comp (follows_endsThrough rest h.2)

theorem follows_endsOfAny : (rs : List Regex) → PrintableAll rs →
    Follows subject.length (endsOfAny subject rs) (SpansAny subject rs)
  | [], _ => Follows.nowhere
  | r :: rest, h => (follows_ends r h.1).or (follows_endsOfAny rest h.2)

end

theorem isFoundIn_iff {r : Regex} (printable : r.Printable) {text : String} : r.isFoundIn text = true ↔ r.FoundIn text := by
  have follows : Follows text.toList.length (ends text.toList r) (Spans text.toList r) := follows_ends r printable
  have everywhere (i : Nat) : (2 ^ (text.toList.length + 1) - 1).testBit i = true ↔ i ≤ text.toList.length := by
    rw [Nat.testBit_two_pow_sub_one, decide_eq_true_eq, Nat.lt_succ_iff]
  have somewhere {positions : Nat} : positions ≠ 0 ↔ ∃ j, positions.testBit j = true := by
    refine ⟨Nat.exists_testBit_of_ne_zero, ?_⟩
    rintro ⟨j, inside⟩ rfl
    simp at inside
  rw [isFoundIn, Nat.one_shiftLeft, bne_iff_ne, somewhere]
  simp only [follows.testBit_iff _ fun i inside => (everywhere i).mp inside, everywhere, FoundIn]
  exact exists_comm

end RegularGrammar.Regex
