import Mathlib.Data.List.Chain
import RegularGrammar.Proofs.Grammar.Expansion

/-!
# The form of a regular expression

What a grammar turns into is never built in just any way. It is free of anchors, a class
in it always leaves out some character, a choice has an item that is no class, and no
item of a concatenation is followed by its own repetition: the two have become a
repetition of at least once, which stands nowhere else.
-/

namespace RegularGrammar

namespace Regex

/-- What an expression is directly built from. -/
def parts : Regex → List Regex
  | .concat items => items
  | .alt items => items
  | .star body => [body]
  | .plus body => [body]
  | .opt body => [body]
  | _ => []

/-- An expression is a part of another one, however deep, or all of it. -/
inductive Within (part : Regex) : Regex → Prop where
  | all : Within part part
  | deeper {p r : Regex} : p ∈ r.parts → Within part p → Within part r

/-- All parts of an expression have a property. -/
def Throughout (property : Regex → Prop) (r : Regex) : Prop := ∀ part, Within part r → property part

theorem throughout_iff {property : Regex → Prop} {r : Regex} :
    r.Throughout property ↔ property r ∧ ∀ p ∈ r.parts, p.Throughout property := by
  constructor
  · intro h
    refine ⟨h r .all, ?_⟩
    intro p member part inside
    exact h part (.deeper member inside)
  · rintro ⟨here, below⟩ part inside
    cases inside with
    | all => exact here
    | deeper member inside => exact below _ member part inside

/-- What an expression is directly built from suits it. -/
def Settled : Regex → Prop
  | .set s => s.Ascending ∧ ∃ c, c ∉ s
  | .any => True
  | .literal _ => True
  | .concat items => items.IsChain fun x y => y ≠ .star x
  | .star body => ¬ body.IsPlus
  | .plus body => ¬ body.IsPlus
  | .opt body => ¬ body.IsPlus
  | .alt items => (∃ item ∈ items, ¬ item.IsCharacters) ∧ ∀ item ∈ items, ¬ item.IsPlus
  | .beginText => False
  | .endText => False

/-- All parts of an expression suit one another, and it can be a part of any other. -/
structure Normal (r : Regex) : Prop where
  settled : r.Throughout Settled
  notPlus : ¬ r.IsPlus

theorem normal_literal {text : String} : (literal text).Normal where
  settled := throughout_iff.mpr ⟨trivial, by simp [parts]⟩
  notPlus := by simp [IsPlus]

theorem normal_ofClass {s : CharClass} (ascending : s.Ascending) : (ofClass s).Normal := by
  unfold ofClass
  by_cases full : s.isFull = true
  · rw [if_pos full]
    exact ⟨throughout_iff.mpr ⟨trivial, by simp [parts]⟩, by simp [IsPlus]⟩
  · rw [if_neg full]
    have proper : ∃ c, c ∉ s := by
      rw [CharClass.isFull_iff ascending] at full
      exact Classical.not_forall.mp full
    exact ⟨throughout_iff.mpr ⟨⟨ascending, proper⟩, by simp [parts]⟩, by simp [IsPlus]⟩

theorem Normal.star {r : Regex} (h : r.Normal) : r.star.Normal where
  settled := throughout_iff.mpr ⟨h.notPlus, by simpa [parts] using h.settled⟩
  notPlus := by simp [IsPlus]

theorem Normal.opt {r : Regex} (h : r.Normal) : r.opt.Normal where
  settled := throughout_iff.mpr ⟨h.notPlus, by simpa [parts] using h.settled⟩
  notPlus := by simp [IsPlus]

theorem Normal.ascending {r : Regex} (h : r.Normal) {s : CharClass} (isClass : r.class? = some s) : s.Ascending := by
  cases r with
  | set t =>
    cases isClass
    exact (h.settled _ .all).1
  | literal text =>
    obtain ⟨c, -, rfl⟩ := Option.map_eq_some_iff.mp isClass
    exact CharClass.ofRange_ascending
  | _ => cases isClass

theorem Normal.negate {r t : Regex} (h : r.Normal) (negated : r.negate = .ok t) : t.Normal := by
  obtain ⟨s, isClass, u, outside, rfl⟩ := negate_eq_ok_iff.mp negated
  exact normal_ofClass (CharClass.complement?_ascending (h.ascending isClass) outside)

/-- A choice stays one only if an item of it is no class. -/
theorem normal_choice {rs : List Regex} (h : ∀ r ∈ rs, r.Normal) : (choice rs).Normal := by
  unfold choice
  cases classes : rs.mapM class? with
  | some ss => exact normal_ofClass CharClass.unionAll_ascending
  | none =>
    have odd : ∃ r ∈ rs, ¬ r.IsCharacters := by
      by_cases all : ∀ r ∈ rs, r.IsCharacters
      · obtain ⟨ss, found⟩ := exists_classes fun r member => isCharacters_iff.mp (all r member)
        rw [classes] at found
        cases found
      · simpa using all
    refine ⟨throughout_iff.mpr ⟨⟨odd, ?_⟩, ?_⟩, by simp [IsPlus]⟩
    · intro r member
      exact (h r member).notPlus
    · intro r member
      exact (h r member).settled

theorem settled_collapseFrom {x : Regex} {rest : List Regex} (first : x.Throughout Settled)
    (others : ∀ r ∈ rest, r.Normal) : ∀ r ∈ collapseFrom x rest, r.Throughout Settled := by
  fun_induction collapseFrom x rest with
  | case1 x => simpa using first
  | case2 y rest ih =>
    obtain ⟨starred, later⟩ := List.forall_mem_cons.mp others
    -- The body of a repetition is no plus, so it may be the body of one.
    have suits : ¬ y.IsPlus := (throughout_iff.mp starred.settled).1
    refine ih (throughout_iff.mpr ⟨suits, ?_⟩) later
    simpa [parts] using first
  | case3 x y rest different ih =>
    obtain ⟨next, later⟩ := List.forall_mem_cons.mp others
    exact List.forall_mem_cons.mpr ⟨first, ih next.settled later⟩
  | case4 x y rest notStar ih =>
    obtain ⟨next, later⟩ := List.forall_mem_cons.mp others
    exact List.forall_mem_cons.mpr ⟨first, ih next.settled later⟩

theorem normal_concat {rs : List Regex} (h : ∀ r ∈ rs, r.Normal) : (concat (collapseRepeats rs)).Normal := by
  refine ⟨throughout_iff.mpr ⟨collapseRepeats_isChain rs, ?_⟩, by simp [IsPlus]⟩
  cases rs with
  | nil => simp [collapseRepeats, parts]
  | cons x rest =>
    obtain ⟨first, others⟩ := List.forall_mem_cons.mp h
    exact settled_collapseFrom first.settled others

theorem inherited_normal : Expr.Inherited Normal where
  range _ := normal_ofClass CharClass.ofRange_ascending
  literal _ := normal_literal
  concat _ := normal_concat
  choice _ := normal_choice
  star _ := Normal.star
  opt _ := Normal.opt
  negate _ _ := Normal.negate

variable {r : Regex}

/-- A repetition of at least once stands in a concatenation. -/
theorem Normal.concat_of_plus (h : r.Normal) {whole part : Regex} (inside : Within whole r) (member : part ∈ whole.parts)
    (isPlus : part.IsPlus) : ∃ items, whole = .concat items := by
  have settled := h.settled whole inside
  cases whole with
  | concat items => exact ⟨items, rfl⟩
  | star body =>
    rw [List.mem_singleton.mp member] at isPlus
    exact absurd isPlus settled
  | plus body =>
    rw [List.mem_singleton.mp member] at isPlus
    exact absurd isPlus settled
  | opt body =>
    rw [List.mem_singleton.mp member] at isPlus
    exact absurd isPlus settled
  | alt items => exact absurd isPlus (settled.2 part member)
  | _ => cases member

theorem Normal.not_repeated (h : r.Normal) (before : List Regex) (x : Regex) (after : List Regex) :
    ¬ Within (.concat (before ++ x :: .star x :: after)) r := by
  intro inside
  have chain : (before ++ x :: .star x :: after).IsChain fun x y => y ≠ .star x := h.settled _ inside
  have pair := (List.isChain_append.mp chain).2.1
  exact (List.isChain_cons_cons.mp pair).1 rfl

end Regex

namespace Grammar

/-- Nowhere in the regular expression of a production is there an anchor, a class of all characters or out of order,
    a choice between nothing but classes and single characters, an item right before its own repetition, or a
    repetition of at least once that is no item of a concatenation. For a whole text it is put between two anchors. -/
theorem regex_normal {g : Grammar} {n : String} {r : Regex} (h : g.regex n = .ok r) :
    (¬ Regex.Within .beginText r ∧ ¬ Regex.Within .endText r) ∧
    (∀ s, Regex.Within (.set s) r → s.Ascending ∧ ∃ c, c ∉ s) ∧
    (∀ items, Regex.Within (.alt items) r → items ≠ [] ∧ ∃ item ∈ items, ¬ item.IsCharacters) ∧
    (∀ before x after, ¬ Regex.Within (.concat (before ++ x :: .star x :: after)) r) ∧
    (¬ r.IsPlus ∧ ∀ whole, Regex.Within whole r → ∀ part ∈ whole.parts, part.IsPlus → ∃ items, whole = .concat items) ∧
    g.wholeRegex n = .ok (.concat [.beginText, r, .endText]) := by
  have normal : r.Normal := inherited_regex Regex.inherited_normal h
  have settled := normal.settled
  refine ⟨⟨?_, ?_⟩, ?_, ?_, normal.not_repeated, ⟨normal.notPlus, ?_⟩, ?_⟩
  · intro inside
    exact settled _ inside
  · intro inside
    exact settled _ inside
  · intro s inside
    exact settled _ inside
  · intro items inside
    obtain ⟨⟨item, member, odd⟩, -⟩ := settled _ inside
    exact ⟨List.ne_nil_of_mem member, item, member, odd⟩
  · intro whole inside part member isPlus
    exact normal.concat_of_plus inside member isPlus
  · rw [wholeRegex, h]
    rfl

/-- Words of letters and underscores, and maybe something that is no class. -/
def words : Grammar := .ofList
  [⟨"start", .sequence [.name "sign", .repetition (.name "sign"),
      .option (.alternative [.literal "-", .literal "ab", .complement (.literal "x")])]⟩,
   ⟨"sign", .alternative [.range "a" "z", .literal "_"]⟩]

def wordsRegex : Regex :=
  .concat
    [.plus (.set ⟨[.single '_', .between 'a' 'z']⟩),
     .opt (.alt [.literal "-", .literal "ab", .set ⟨[.between '\x00' 'w', .between 'y' Scalar.last]⟩])]

theorem regex_normal_words :
    words.regex "start" = .ok wordsRegex ∧
    (∀ items, Regex.Within (.alt items) wordsRegex → items ≠ [] ∧ ∃ item ∈ items, ¬ item.IsCharacters) ∧
    (∀ before x after, ¬ Regex.Within (.concat (before ++ x :: .star x :: after)) wordsRegex) ∧
    words.wholeRegex "start" = .ok (.concat [.beginText, wordsRegex, .endText]) := by
  have found : words.regex "start" = .ok wordsRegex := by decide +kernel
  obtain ⟨-, -, choices, repeats, -, whole⟩ := regex_normal found
  exact ⟨found, choices, repeats, whole⟩

end Grammar

end RegularGrammar
