import RegularGrammar.Proofs.Grammar.Expansion

/-!
# The language of a regular expression

The regular expression of a production matches the language of that production.
The equations of the names that it depends on have a solution, and every solution
gives the production that language, so there is just one.
-/

namespace RegularGrammar

namespace Expr

variable {owner : String} {lookUp : String → Except Irregularity Regex} {names : String → Language}

mutual

/-- An expression recognizes what it denotes if the names in it do. -/
theorem toRegex_recognizes : (e : Expr) → {r : Regex} → toRegex owner lookUp e = .ok r →
    (∀ n ∈ e.references, ∀ s, lookUp n = .ok s → s.Recognizes (names n)) → r.Recognizes (e.Denotes names)
  | .range first last, r, h, _ => by
    obtain ⟨lo, hi, lower, upper, ordered, rfl⟩ := toRegex_range_iff.mp h
    refine (Regex.recognizes_range ordered).congr fun w => ?_
    simp [Denotes, lower, upper]
  | .literal text, r, h, _ => by
    cases h
    exact Regex.recognizes_literal.congr fun w => by rw [Denotes]
  | .sequence items, r, h, given => by
    obtain ⟨rs, found, rfl⟩ := toRegex_sequence_iff.mp h
    exact (toRegexes_recognize items found given).concat.congr fun w => by rw [Denotes]
  | .alternative items, r, h, given => by
    obtain ⟨rs, found, rfl⟩ := toRegex_alternative_iff.mp h
    exact (toRegexes_recognize items found given).choice.congr fun w => by rw [Denotes]
  | .repetition body, r, h, given => by
    obtain ⟨s, found, rfl⟩ := toRegex_repetition_iff.mp h
    exact (toRegex_recognizes body found given).star.congr fun w => by rw [Denotes]
  | .option body, r, h, given => by
    obtain ⟨s, found, rfl⟩ := toRegex_option_iff.mp h
    exact (toRegex_recognizes body found given).opt.congr fun w => by rw [Denotes]
  | .group body, r, h, given =>
    (toRegex_recognizes body h given).congr fun w => by rw [Denotes]
  | .name n, r, h, given =>
    (given n (List.mem_singleton_self n) r h).congr fun w => by rw [Denotes]
  | .complement body, r, h, given => by
    obtain ⟨s, found, negated⟩ := toRegex_complement_iff.mp h
    exact ((toRegex_recognizes body found given).negate negated).congr fun w => by rw [Denotes]

theorem toRegexes_recognize : (es : List Expr) → {rs : List Regex} → toRegexes owner lookUp es = .ok rs →
    (∀ n ∈ referencesAll es, ∀ s, lookUp n = .ok s → s.Recognizes (names n)) →
      Regex.RecognizeAll rs (DenotesThrough names es) (DenotesAny names es)
  | [], rs, h, _ => by
    cases h
    exact Regex.recognizeAll_nil
  | e :: rest, rs, h, given => by
    obtain ⟨r, first, others, later, rfl⟩ := toRegexes_cons_iff.mp h
    have here := toRegex_recognizes e first fun n member => given n (List.mem_append_left _ member)
    have after := toRegexes_recognize rest later fun n member => given n (List.mem_append_right _ member)
    exact here.cons after

end

end Expr

namespace Grammar

variable {g : Grammar}

theorem Solves.of_reaches {start n : String} {names : String → Language} (h : g.Solves start names)
    (chain : g.Reaches start n) : g.Solves n names :=
  fun m p later found => h m p (chain.trans later) found

theorem recognizes_of_solves {n : String} {r : Regex} (h : g.regex n = .ok r) {names : String → Language}
    (solves : g.Solves n names) : r.Recognizes (names n) := by
  induction h using regex_induction with
  | step n p r _ found body ih =>
    have recognizes := Expr.toRegex_recognizes p.body body fun m member s inner =>
      ih m member s inner (solves.of_reaches (.single ⟨p, found, member⟩))
    exact recognizes.congr fun w => (solves n p .refl found w).symm

/-- The texts that the regular expression of a production matches. -/
def matched (g : Grammar) (n : String) : Language := fun w => ∃ r, g.regex n = .ok r ∧ r.Matches (String.ofList w)

theorem recognizes_of_denotes {n : String} {r : Regex} (h : g.regex n = .ok r) {l : Language} (recognizes : r.Recognizes l) :
    ∀ w, l w ↔ g.matched n w := by
  intro w
  simp only [matched, h, Except.ok.injEq, exists_eq_left', recognizes.matches_iff, String.toList_ofList]

theorem recognizes_matched {n : String} {r : Regex} (h : g.regex n = .ok r) : r.Recognizes (g.matched n) := by
  induction h using regex_induction with
  | step n p r h found body ih =>
    have recognizes := Expr.toRegex_recognizes p.body body ih
    exact recognizes.congr (recognizes_of_denotes h recognizes)

theorem matched_solves {n : String} {r : Regex} (h : g.regex n = .ok r) : g.Solves n g.matched := by
  intro m p chain found w
  obtain ⟨s, whole, body⟩ := toRegex_of_reaches h chain found
  have recognizes := Expr.toRegex_recognizes p.body body fun k _ t inner => recognizes_matched inner
  exact (recognizes_of_denotes whole recognizes w).symm

/-- The regular expression of a production matches exactly the texts of its language, and the one for a whole
    text is found exactly in them. The language is what any solution of the equations gives the production. -/
theorem regex_matches_iff {n : String} {r : Regex} (h : g.regex n = .ok r) :
    (∃ names, g.Solves n names) ∧
      ∀ names, g.Solves n names →
        (∀ text, r.Matches text ↔ names n text.toList) ∧
          ∃ whole, g.wholeRegex n = .ok whole ∧ ∀ text, whole.FoundIn text ↔ names n text.toList := by
  refine ⟨⟨g.matched, matched_solves h⟩, fun names solves => ?_⟩
  have recognizes := recognizes_of_solves h solves
  refine ⟨recognizes.matches_iff, .concat [.beginText, r, .endText], ?_, recognizes.found_iff⟩
  rw [wholeRegex, map_eq_ok_iff]
  exact ⟨r, h, rfl⟩

/-- Digits after anything but a digit or a minus sign, which may be missing. -/
def digits : Grammar := .ofList
  [⟨"start", .sequence [.option (.complement (.name "sign")), .name "digit", .repetition (.name "digit")]⟩,
   ⟨"sign", .alternative [.literal "-", .name "digit"]⟩,
   ⟨"digit", .range "0" "9"⟩]

def digitsRegex : Regex :=
  .concat
    [.opt (.set ⟨[.between '\x00' ',', .between '.' '/', .between ':' Scalar.last]⟩), .plus (.set ⟨[.between '0' '9']⟩)]

theorem digits_matches_iff :
    digits.regex "start" = .ok digitsRegex ∧
    ((∃ names, digits.Solves "start" names) ∧
      ∀ names, digits.Solves "start" names →
        (∀ text, digitsRegex.Matches text ↔ names "start" text.toList) ∧
          ∃ whole, digits.wholeRegex "start" = .ok whole ∧
            ∀ text, whole.FoundIn text ↔ names "start" text.toList) := by
  have found : digits.regex "start" = .ok digitsRegex := by decide +kernel
  exact ⟨found, regex_matches_iff found⟩

end Grammar

end RegularGrammar
