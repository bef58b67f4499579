import RegularGrammar.Proofs.CharClass.Union
import RegularGrammar.Proofs.Grammar.Expansion

/-!
# Choices between single characters

A choice between classes and single characters is one class, the union of all of them.
As unions have no order, neither have such choices: it makes no difference in which
order their items are written, or how often.
-/

namespace RegularGrammar

namespace Regex

theorem choice_of_classes {rs : List Regex} {ss : List CharClass} (classes : rs.mapM class? = some ss) :
    choice rs = .ofClass (.unionAll ss) := by
  simp only [choice, classes]

/-- Classes and single characters may be chosen from in any order, and each of them any number of times. -/
theorem choice_congr {rs ts : List Regex} (same : ∀ r, r ∈ rs ↔ r ∈ ts) (each : ∀ r ∈ rs, ∃ s, r.class? = some s) :
    choice rs = choice ts := by
  obtain ⟨ss, first⟩ := exists_classes each
  obtain ⟨us, second⟩ := @exists_classes ts fun r member => each r ((same r).mpr member)
  have union : CharClass.unionAll ss = CharClass.unionAll us := by
    refine CharClass.unionAll_congr ?_
    intro s
    simp only [mem_classes_iff first, mem_classes_iff second, same]
  rw [choice_of_classes first, choice_of_classes second, union]

end Regex

namespace Expr

variable {owner : String} {lookUp : String → Except Irregularity Regex}

theorem exists_toRegexes {items : List Expr} (each : ∀ e ∈ items, ∃ r, toRegex owner lookUp e = .ok r) :
    ∃ rs, toRegexes owner lookUp items = .ok rs ∧ ∀ r, r ∈ rs ↔ ∃ e ∈ items, toRegex owner lookUp e = .ok r := by
  induction items with
  | nil => exact ⟨[], rfl, by simp⟩
  | cons e rest ih =>
    have ⟨first, others⟩ := List.forall_mem_cons.mp each
    obtain ⟨r, here⟩ := first
    obtain ⟨rs, later, members⟩ := ih others
    refine ⟨r :: rs, toRegexes_cons_iff.mpr ⟨r, here, rs, later, rfl⟩, ?_⟩
    intro s
    simp only [List.mem_cons, exists_eq_or_imp, members, here, Except.ok.injEq, @eq_comm _ r s]

/-- Items of a choice that turn into single characters may stand in any order, and any number of times. -/
theorem toRegex_alternative_congr {items others : List Expr} (same : ∀ e, e ∈ items ↔ e ∈ others)
    (each : ∀ e ∈ items, ∃ r, toRegex owner lookUp e = .ok r ∧ r.IsCharacters) :
    ∃ r, toRegex owner lookUp (.alternative items) = .ok r ∧ toRegex owner lookUp (.alternative others) = .ok r := by
  have ok (e : Expr) (member : e ∈ items) : ∃ r, toRegex owner lookUp e = .ok r := by
    obtain ⟨r, found, -⟩ := each e member
    exact ⟨r, found⟩
  obtain ⟨rs, first, members⟩ := exists_toRegexes ok
  obtain ⟨ts, second, otherMembers⟩ := @exists_toRegexes owner lookUp others fun e member => ok e ((same e).mpr member)
  have choice : Regex.choice rs = Regex.choice ts := by
    refine Regex.choice_congr ?_ ?_
    · intro r
      simp only [members, otherMembers, same]
    · intro r member
      obtain ⟨e, inItems, found⟩ := (members r).mp member
      obtain ⟨s, again, characters⟩ := each e inItems
      rw [found] at again
      cases again
      exact Regex.isCharacters_iff.mp characters
  exact ⟨.choice rs, toRegex_alternative_iff.mpr ⟨rs, first, rfl⟩, toRegex_alternative_iff.mpr ⟨ts, second, choice⟩⟩

end Expr

namespace CharClass

/-- Neighbours lie in one range of a union exactly if they do in one of the two classes. So the union of classes,
    the class of some ranges and a choice between single characters have the ranges that they have in whatever
    order their parts are put together, and however often. -/
theorem built_unions_lawful :
    (∀ s t : CharClass, s.Built → t.Built →
      (∀ a b, Scalar.next? a = some b →
        ((∃ r ∈ (s.union t).ranges, a ∈ r ∧ b ∈ r) ↔
          (∃ r ∈ s.ranges, a ∈ r ∧ b ∈ r) ∨ ∃ r ∈ t.ranges, a ∈ r ∧ b ∈ r)) ∧
      s.union t = t.union s ∧ (∀ u : CharClass, u.Built → (s.union t).union u = s.union (t.union u)) ∧
      s.union s = s ∧ s.union empty = s ∧ empty.union s = s) ∧
    (∀ rs ts : List CharRange, (∀ r, r ∈ rs ↔ r ∈ ts) → ofRanges rs = ofRanges ts) ∧
    ∀ (owner : String) (lookUp : String → Except Irregularity Regex) (items others : List Expr),
      (∀ e, e ∈ items ↔ e ∈ others) → (∀ e ∈ items, ∃ r, e.toRegex owner lookUp = .ok r ∧ r.IsCharacters) →
        ∃ r, (Expr.alternative items).toRegex owner lookUp = .ok r ∧
          (Expr.alternative others).toRegex owner lookUp = .ok r := by
  refine ⟨?_, ?_, ?_⟩
  · intro s t first second
    have left := first.ascending
    refine ⟨?_, union_comm left second.ascending, ?_, union_self left, union_empty, empty_union left⟩
    · intro a b next
      exact joins_union (.inr next)
    · intro u _
      exact union_assoc left
  · intro rs ts same
    exact ofRanges_congr same
  · intro owner lookUp items others same each
    exact Expr.toRegex_alternative_congr same each

/-- From `a` to `c`, and the last value before the surrogates. -/
def beforeGap : CharClass := ofRanges [.single '\uD7FF', .between 'c' 'b', .between 'b' 'a']

theorem built_unions_lawful_beforeGap :
    (¬ (∃ r ∈ (beforeGap.union (.ofChar '\uE000')).ranges, '\uD7FF' ∈ r ∧ '\uE000' ∈ r)) ∧
    beforeGap.union (.ofChar '\uE000') = (ofChar '\uE000').union beforeGap ∧
    ofRanges [.between 'a' 'c', .single 'd', .single 'd'] = ofRanges [.single 'd', .between 'c' 'a'] ∧
    ∃ r, (Expr.alternative [.literal "b", .range "a" "b", .name "c"]).toRegex "letter" (fun n => .ok (.literal n)) = .ok r ∧
      (Expr.alternative [.name "c", .literal "b", .range "a" "b", .literal "b"]).toRegex "letter"
        (fun n => .ok (.literal n)) = .ok r := by
  obtain ⟨laws, ranges, choices⟩ := built_unions_lawful
  obtain ⟨joins, comm, -⟩ := laws beforeGap (.ofChar '\uE000') (.ofRanges _) (.ofChar _)
  refine ⟨?_, comm, ?_, ?_⟩
  · rw [joins '\uD7FF' '\uE000' (by decide)]
    decide
  · refine ranges _ _ ?_
    intro r
    simp [CharRange.between_comm 'c' 'a', or_comm]
  · refine choices _ _ _ _ ?_ ?_
    · intro e
      simp only [List.mem_cons, List.not_mem_nil]
      grind
    · intro e member
      simp only [List.mem_cons, List.not_mem_nil, or_false] at member
      rcases member with rfl | rfl | rfl
      · exact ⟨.literal "b", rfl, .inr ⟨'b', rfl⟩⟩
      · exact ⟨.set ⟨[.between 'a' 'b']⟩, by decide, .inl ⟨_, rfl⟩⟩
      · exact ⟨.literal "c", rfl, .inr ⟨'c', rfl⟩⟩

end CharClass

end RegularGrammar
