import RegularGrammar.Proofs.Grammar.Irregularity
import RegularGrammar.Proofs.Grammar.NormalForm

/-!
# Defects and their productions

The production that an irregularity tells is the one whose body is innermost where the
expansion stops, however many bodies around it are being expanded and however deep in
its own body the obstacle stands. What is wrong can be read there: no name has to be
followed but those that lead from a complement to its operand.
-/

namespace RegularGrammar

namespace Regex

/-- Of normal forms, a literal that is no single character cannot be negated, and nothing else but what is neither a
    literal nor a class. -/
theorem Normal.negate_eq_error {r : Regex} (normal : r.Normal) {o : Obstacle} (failed : r.negate = .error o) :
    (∃ text, r = .literal text ∧ o = .invalidLiteralNegation text ∧ ∀ c, text.toList ≠ [c]) ∨
      o = .unsupportedNegation r ∧ (∀ text, r ≠ .literal text) ∧ ∀ s, r ≠ .set s := by
  have negatable {s : CharClass} (isClass : r.class? = some s) (proper : ∃ c, c ∉ s) : False := by
    obtain ⟨t, negated⟩ := Grammar.negate_of_isClassOf ⟨s, isClass, normal.ascending isClass, fun _ => Iff.rfl⟩ proper
    rw [negated] at failed
    cases failed
  cases r with
  | set s =>
    obtain ⟨-, proper⟩ := normal.settled _ .all
    exact (negatable rfl proper).elim
  | literal text =>
    by_cases single : ∃ a, text.toList = [a]
    · obtain ⟨a, single⟩ := single
      have isClass : (literal text).class? = some (.ofChar a) := by
        rw [class?, singleChar?_eq_some_iff.mpr single, Option.map_some]
      have proper : ∃ c, c ∉ CharClass.ofChar a := by
        simpa [CharClass.ofChar] using exists_char_ne a
      exact (negatable isClass proper).elim
    · have many : ∀ c, text.toList ≠ [c] := fun c only => single ⟨c, only⟩
      have none : singleChar? text = none := by
        apply Option.eq_none_iff_forall_ne_some.mpr
        intro c found
        exact many c (singleChar?_eq_some_iff.mp found)
      rw [Regex.negate, none] at failed
      cases failed
      exact .inl ⟨text, rfl, rfl, many⟩
  | _ =>
    cases failed
    exact .inr ⟨rfl, by simp, by simp⟩

theorem ofClass_ne_literal (s : CharClass) (text : String) : ofClass s ≠ .literal text := by
  unfold ofClass
  split <;> simp

theorem choice_ne_literal (rs : List Regex) (text : String) : choice rs ≠ .literal text := by
  unfold choice
  split
  · exact ofClass_ne_literal _ text
  · simp

end Regex

namespace Expr

/-- An expression leads to a literal through nothing but groups and names. -/
inductive StandsFor (g : Grammar) (text : String) : Expr → Prop where
  | literal : StandsFor g text (.literal text)
  | group {body : Expr} : StandsFor g text body → StandsFor g text (.group body)
  | name {n : String} {p : Production} : g.get? n = some p → StandsFor g text p.body → StandsFor g text (.name n)

variable {g : Grammar} {owner : String}

/-- Only what stands for a literal turns into one, if that holds of the names in it. -/
theorem standsFor_of_toRegex {text : String} : (e : Expr) → e.toRegex owner g.regex = .ok (.literal text) →
    (∀ n ∈ e.references, g.regex n = .ok (.literal text) → StandsFor g text (.name n)) → StandsFor g text e
  | .range first last, found, _ => by
    obtain ⟨lo, hi, -, -, -, same⟩ := toRegex_range_iff.mp found
    exact absurd same.symm (Regex.ofClass_ne_literal _ text)
  | .literal _, found, _ => by
    cases found
    exact .literal
  | .sequence items, found, _ => by
    obtain ⟨rs, -, same⟩ := toRegex_sequence_iff.mp found
    cases same
  | .alternative items, found, _ => by
    obtain ⟨rs, -, same⟩ := toRegex_alternative_iff.mp found
    exact absurd same.symm (Regex.choice_ne_literal rs text)
  | .repetition body, found, _ => by
    obtain ⟨s, -, same⟩ := toRegex_repetition_iff.mp found
    cases same
  | .option body, found, _ => by
    obtain ⟨s, -, same⟩ := toRegex_option_iff.mp found
    cases same
  | .group body, found, given => .group (standsFor_of_toRegex body found given)
  | .name n, found, given => given n (List.mem_singleton_self n) found
  | .complement body, found, _ => by
    obtain ⟨s, -, negated⟩ := toRegex_complement_iff.mp found
    obtain ⟨-, -, u, -, same⟩ := Regex.negate_eq_ok_iff.mp negated
    exact absurd same.symm (Regex.ofClass_ne_literal u text)

theorem standsFor_of_regex {text n : String} {r : Regex} (found : g.regex n = .ok r) (isLiteral : r = .literal text) :
    StandsFor g text (.name n) := by
  induction found using Grammar.regex_induction with
  | step n p r _ defined body ih =>
    subst isLiteral
    exact .name defined (standsFor_of_toRegex p.body body fun m member inner => ih m member _ inner rfl)

theorem Obstructed.mono {lookUp lookUp' : String → Except Irregularity Regex} {e : Expr} {o : Obstacle}
    (more : ∀ n s, lookUp n = .ok s → lookUp' n = .ok s) (h : Obstructed owner lookUp e o) :
    Obstructed owner lookUp' e o := by
  cases h with
  | range inside improper => exact .range inside improper
  | complement inside operand failed => exact .complement inside (toRegex_mono (fun n _ => more n) operand) failed

end Expr

namespace Grammar

open RegularGrammar.Expr (Within Ordered StandsFor Obstructed)

variable {g : Grammar} {start : String}

/-- The name at the end of a chain stands in the innermost body. -/
theorem Chain.innermost {a n : String} {outer : List String} (chain : g.Chain start (a :: outer) n) :
    ∃ p, g.get? a = some p ∧ g.Reaches start a ∧ Within (.name n) p.body := by
  cases chain with
  | step chain refers =>
    obtain ⟨p, found, reference⟩ := refers
    exact ⟨p, found, chain.reaches, (Expr.mem_references_iff p.body).mp reference⟩

@[simp]
theorem getLast?_cyclePath (name : String) (active : List String) : (cyclePath name active).getLast? = some name :=
  List.getLast?_concat

/-- What an obstacle tells of stands in the body of a production itself. -/
inductive CausedIn (g : Grammar) (p : Production) : Obstacle → Prop where
  | undefinedProduction {m : String} : Within (.name m) p.body → ¬ g.Defines m → CausedIn g p (.undefinedProduction m)
  | invalidRange {first last : String} : Within (.range first last) p.body → ¬ Ordered first last →
      CausedIn g p (.invalidRange first last)
  | invalidLiteralNegation {body : Expr} {text : String} : Within (.complement body) p.body → body.StandsFor g text →
      (∀ c, text.toList ≠ [c]) → CausedIn g p (.invalidLiteralNegation text)
  | unsupportedNegation {body : Expr} {operand : Regex} : Within (.complement body) p.body →
      body.toRegex p.name g.regex = .ok operand → (∀ text, operand ≠ .literal text) → (∀ s, operand ≠ .set s) →
      CausedIn g p (.unsupportedNegation operand)
  | cycle {path : List String} {m : String} : path.getLast? = some m → Within (.name m) p.body → CausedIn g p (.cycle path)

theorem causedIn_of_obstructed {p : Production} {o : Obstacle} (h : Obstructed p.name g.regex p.body o) :
    g.CausedIn p o := by
  cases h with
  | range inside improper => exact .invalidRange inside improper
  | @complement body r _ inside operand failed =>
    have normal : r.Normal := Regex.inherited_normal.toRegex body operand fun _ _ _ => inherited_regex Regex.inherited_normal
    rcases normal.negate_eq_error failed with ⟨text, rfl, rfl, many⟩ | ⟨rfl, noLiteral, noClass⟩
    · have isLiteral := Expr.standsFor_of_toRegex body operand fun m _ inner => Expr.standsFor_of_regex inner rfl
      exact .invalidLiteralNegation inside isLiteral many
    · exact .unsupportedNegation inside operand noLiteral noClass

/-- The body that is innermost where an expansion stops holds what stops it. -/
theorem Stops.causedIn {active : List String} {m : String} {i : Irregularity} (stops : g.Stops active m i)
    (chain : g.Chain start active m) :
    (¬ g.Defines start ∧ i = ⟨start, .undefinedProduction start⟩) ∨
      ∃ p, g.get? i.production = some p ∧ g.Reaches start i.production ∧ g.CausedIn p i.obstacle := by
  cases stops with
  | missing undefined =>
    cases active with
    | nil =>
      cases chain
      exact .inl ⟨undefined, rfl⟩
    | cons a outer =>
      obtain ⟨p, found, reached, inside⟩ := chain.innermost
      exact .inr ⟨p, found, reached, .undefinedProduction inside undefined⟩
  | cyclic _ member =>
    cases active with
    | nil => cases member
    | cons a outer =>
      obtain ⟨p, found, reached, inside⟩ := chain.innermost
      exact .inr ⟨p, found, reached, .cycle (getLast?_cyclePath m (a :: outer)) inside⟩
  | @obstructed p o found obstructed =>
    have named := name_of_get? found
    subst named
    refine .inr ⟨p, found, chain.reaches, causedIn_of_obstructed (obstructed.mono ?_)⟩
    intro n s inner
    exact regex_of_expand inner

/-- Where there is no regular expression of a name, either the name itself is undefined, and that is told, or a
    production is told that the name leads to and in whose own body, with no name followed, stands what is wrong. -/
theorem regex_error_causedIn {n : String} {i : Irregularity} (h : g.regex n = .error i) :
    (¬ g.Defines n ∧ i = ⟨n, .undefinedProduction n⟩) ∨
      ∃ p, g.get? i.production = some p ∧ g.Reaches n i.production ∧ g.CausedIn p i.obstacle := by
  obtain ⟨inner, m, chain, -, stops⟩ := exists_stops_of_regex h
  exact stops.causedIn chain

/-- A pair of letters where a single one should stand, behind a group and a name, in the middle of a deeper body. -/
def misread : Grammar := .ofList
  [⟨"start", .sequence [.name "letter", .name "word"]⟩, ⟨"word", .repetition (.group (.name "other"))⟩,
   ⟨"other", .alternative [.name "letter", .complement (.group (.name "pair"))]⟩, ⟨"letter", .range "a" "z"⟩,
   ⟨"pair", .literal "xy"⟩]

theorem regex_error_causedIn_misread :
    misread.regex "start" = .error ⟨"other", .invalidLiteralNegation "xy"⟩ ∧
    ∃ p, misread.get? "other" = some p ∧ misread.Reaches "start" "other" ∧ ∃ body, Within (.complement body) p.body ∧
      body.StandsFor misread "xy" := by
  have failed : misread.regex "start" = .error ⟨"other", .invalidLiteralNegation "xy"⟩ := by with_unfolding_all rfl
  refine ⟨failed, ?_⟩
  rcases regex_error_causedIn failed with ⟨-, told⟩ | ⟨p, found, reached, caused⟩
  · simp at told
  · cases caused with
    | invalidLiteralNegation inside stands _ => exact ⟨p, found, reached, _, inside, stands⟩

end Grammar

end RegularGrammar
