import RegularGrammar.Grammar.Expansion
import RegularGrammar.Grammar.Language
import RegularGrammar.Proofs.Regex.Recognition

/-!
# What an expansion looks at

The regular expression of an expression depends on those of the names in it and
on nothing else, and that of a name does not depend on the productions around it.
So `regex_induction` may speak of the names alone: what passes from the names in
a body to its production holds of every production that has a regular expression.
-/

namespace RegularGrammar

@[simp]
theorem map_eq_ok_iff {ε α β : Type} {x : Except ε α} {f : α → β} {b : β} :
    x.map f = .ok b ↔ ∃ a, x = .ok a ∧ b = f a := by
  cases x <;> simp [Except.map, eq_comm]

@[simp]
theorem mapError_eq_ok_iff {ε δ α : Type} {x : Except ε α} {f : ε → δ} {a : α} :
    x.mapError f = .ok a ↔ x = .ok a := by
  cases x with
  | error e =>
    constructor
    · rintro ⟨⟩
    · rintro ⟨⟩
  | ok b =>
    constructor
    · rintro ⟨⟩
      rfl
    · rintro ⟨⟩
      rfl

namespace Expr

variable {owner : String} {lookUp : String → Except Irregularity Regex}

theorem toRegex_range_iff {first last : String} {r : Regex} :
    toRegex owner lookUp (.range first last) = .ok r ↔
      ∃ lo hi, first.toList = [lo] ∧ last.toList = [hi] ∧ lo ≤ hi ∧ r = .ofClass (.ofRange (.between lo hi)) := by
  simp only [← singleChar?_eq_some_iff, toRegex]
  cases lower : singleChar? first with
  | none => simp
  | some lo =>
    cases upper : singleChar? last with
    | none => simp
    | some hi => by_cases ordered : lo ≤ hi <;> simp [ordered, eq_comm]

theorem toRegex_sequence_iff {items : List Expr} {r : Regex} :
    toRegex owner lookUp (.sequence items) = .ok r ↔
      ∃ rs, toRegexes owner lookUp items = .ok rs ∧ r = .concat (Regex.collapseRepeats rs) := by
  simp [toRegex]

theorem toRegex_alternative_iff {items : List Expr} {r : Regex} :
    toRegex owner lookUp (.alternative items) = .ok r ↔
      ∃ rs, toRegexes owner lookUp items = .ok rs ∧ r = .choice rs := by
  simp [toRegex]

theorem toRegex_repetition_iff {body : Expr} {r : Regex} :
    toRegex owner lookUp (.repetition body) = .ok r ↔ ∃ s, toRegex owner lookUp body = .ok s ∧ r = .star s := by
  simp [toRegex]

theorem toRegex_option_iff {body : Expr} {r : Regex} :
    toRegex owner lookUp (.option body) = .ok r ↔ ∃ s, toRegex owner lookUp body = .ok s ∧ r = .opt s := by
  simp [toRegex]

theorem toRegex_complement_iff {body : Expr} {r : Regex} :
    toRegex owner lookUp (.complement body) = .ok r ↔
      ∃ s, toRegex owner lookUp body = .ok s ∧ s.negate = .ok r := by
  rw [toRegex]
  cases toRegex owner lookUp body <;> simp

theorem toRegexes_cons_iff {e : Expr} {rest : List Expr} {rs : List Regex} :
    toRegexes owner lookUp (e :: rest) = .ok rs ↔
      ∃ r, toRegex owner lookUp e = .ok r ∧ ∃ others, toRegexes owner lookUp rest = .ok others ∧
        rs = r :: others := by
  rw [toRegexes]
  cases toRegex owner lookUp e <;> simp

mutual

/-- Whoever has a regular expression has one for every name in it. -/
theorem lookUp_of_toRegex : (e : Expr) → {r : Regex} → toRegex owner lookUp e = .ok r →
    ∀ n ∈ e.references, ∃ s, lookUp n = .ok s
  | .range _ _, _, _ => by simp [references]
  | .literal _, _, _ => by simp [references]
  | .sequence items, _, h => by
    obtain ⟨_, found, -⟩ := toRegex_sequence_iff.mp h
    exact lookUp_of_toRegexes items found
  | .alternative items, _, h => by
    obtain ⟨_, found, -⟩ := toRegex_alternative_iff.mp h
    exact lookUp_of_toRegexes items found
  | .repetition body, _, h => by
    obtain ⟨_, found, -⟩ := toRegex_repetition_iff.mp h
    exact lookUp_of_toRegex body found
  | .option body, _, h => by
    obtain ⟨_, found, -⟩ := toRegex_option_iff.mp h
    exact lookUp_of_toRegex body found
  | .group body, _, h => lookUp_of_toRegex body h
  | .name n, r, h => by
    intro m member
    rw [List.mem_singleton.mp member]
    exact ⟨r, h⟩
  | .complement body, _, h => by
    obtain ⟨_, found, -⟩ := toRegex_complement_iff.mp h
    exact lookUp_of_toRegex body found

theorem lookUp_of_toRegexes : (es : List Expr) → {rs : List Regex} → toRegexes owner lookUp es = .ok rs →
    ∀ n ∈ referencesAll es, ∃ s, lookUp n = .ok s
  | [], _, _ => by simp [referencesAll]
  | e :: rest, _, h => by
    obtain ⟨_, first, _, others, -⟩ := toRegexes_cons_iff.mp h
    intro n member
    rcases List.mem_append.mp member with here | later
    · exact lookUp_of_toRegex e first n here
    · exact lookUp_of_toRegexes rest others n later

end

mutual

theorem toRegex_congr {lookUp' : String → Except Irregularity Regex} :
    (e : Expr) → (∀ n ∈ e.references, lookUp n = lookUp' n) → toRegex owner lookUp e = toRegex owner lookUp' e
  | .range _ _, _ => by simp only [toRegex]
  | .literal _, _ => by simp only [toRegex]
  | .sequence items, same => by simp only [toRegex, toRegexes_congr items same]
  | .alternative items, same => by simp only [toRegex, toRegexes_congr items same]
  | .repetition body, same => by simp only [toRegex, toRegex_congr body same]
  | .option body, same => by simp only [toRegex, toRegex_congr body same]
  | .group body, same => by simp only [toRegex, toRegex_congr body same]
  | .name n, same => same n (List.mem_singleton_self n)
  | .complement body, same => by simp only [toRegex, toRegex_congr body same]

theorem toRegexes_congr {lookUp' : String → Except Irregularity Regex} :
    (es : List Expr) → (∀ n ∈ referencesAll es, lookUp n = lookUp' n) →
      toRegexes owner lookUp es = toRegexes owner lookUp' es
  | [], _ => rfl
  | e :: rest, same => by
    have first := toRegex_congr e fun n member => same n (List.mem_append_left _ member)
    have others := toRegexes_congr rest fun n member => same n (List.mem_append_right _ member)
    simp only [toRegexes, first, others]

end

/-- A regular expression stays what it is where more names have one. -/
theorem toRegex_mono {lookUp' : String → Except Irregularity Regex} {e : Expr} {r : Regex}
    (more : ∀ n ∈ e.references, ∀ s, lookUp n = .ok s → lookUp' n = .ok s) (h : toRegex owner lookUp e = .ok r) :
    toRegex owner lookUp' e = .ok r := by
  rw [← h]
  refine (toRegex_congr e fun n member => ?_).symm
  obtain ⟨s, found⟩ := lookUp_of_toRegex e h n member
  rw [found, more n member s found]

/-- A property that a regular expression has whenever the ones that it is made of have it. -/
structure Inherited (property : Regex → Prop) : Prop where
  range : ∀ r : CharRange, property (.ofClass (.ofRange r))
  literal : ∀ text, property (.literal text)
  concat : ∀ rs, (∀ r ∈ rs, property r) → property (.concat (Regex.collapseRepeats rs))
  choice : ∀ rs, (∀ r ∈ rs, property r) → property (.choice rs)
  star : ∀ r, property r → property (.star r)
  opt : ∀ r, property r → property (.opt r)
  negate : ∀ r s, property r → r.negate = .ok s → property s

mutual

/-- An expression inherits from the names in it. -/
theorem Inherited.toRegex {property : Regex → Prop} (inherited : Inherited property) :
    (e : Expr) → {r : Regex} → toRegex owner lookUp e = .ok r →
      (∀ n ∈ e.references, ∀ s, lookUp n = .ok s → property s) → property r
  | .range first last, r, h, _ => by
    obtain ⟨lo, hi, -, -, -, rfl⟩ := toRegex_range_iff.mp h
    exact inherited.range _
  | .literal text, r, h, _ => by
    cases h
    exact inherited.literal text
  | .sequence items, r, h, given => by
    obtain ⟨rs, found, rfl⟩ := toRegex_sequence_iff.mp h
    exact inherited.concat rs (inherited.toRegexes items found given)
  | .alternative items, r, h, given => by
    obtain ⟨rs, found, rfl⟩ := toRegex_alternative_iff.mp h
    exact inherited.choice rs (inherited.toRegexes items found given)
  | .repetition body, r, h, given => by
    obtain ⟨s, found, rfl⟩ := toRegex_repetition_iff.mp h
    exact inherited.star s (inherited.toRegex body found given)
  | .option body, r, h, given => by
    obtain ⟨s, found, rfl⟩ := toRegex_option_iff.mp h
    exact inherited.opt s (inherited.toRegex body found given)
  | .group body, r, h, given => inherited.toRegex body h given
  | .name n, r, h, given => given n (List.mem_singleton_self n) r h
  | .complement body, r, h, given => by
    obtain ⟨s, found, negated⟩ := toRegex_complement_iff.mp h
    exact inherited.negate s r (inherited.toRegex body found given) negated

theorem Inherited.toRegexes {property : Regex → Prop} (inherited : Inherited property) :
    (es : List Expr) → {rs : List Regex} → toRegexes owner lookUp es = .ok rs →
      (∀ n ∈ referencesAll es, ∀ s, lookUp n = .ok s → property s) → ∀ r ∈ rs, property r
  | [], rs, h, _ => by
    cases h
    exact List.forall_mem_nil _
  | e :: rest, rs, h, given => by
    obtain ⟨r, first, others, later, rfl⟩ := toRegexes_cons_iff.mp h
    have here := inherited.toRegex e first fun n member => given n (List.mem_append_left _ member)
    have after := inherited.toRegexes rest later fun n member => given n (List.mem_append_right _ member)
    exact List.forall_mem_cons.mpr ⟨here, after⟩

end

end Expr

namespace Grammar

variable {g : Grammar}

theorem name_of_get? {n : String} {p : Production} (found : g.get? n = some p) : p.name = n := by
  simpa using List.find?_some found

theorem expand_of_missing {n : String} (missing : g.get? n = none) (active : List String) :
    g.expand active n = .error ⟨active.headD n, .undefinedProduction n⟩ := by
  rw [expand]
  split
  · rfl
  · rename_i p found
    rw [missing] at found
    cases found

theorem expand_of_found {n : String} {p : Production} (found : g.get? n = some p) (active : List String) :
    g.expand active n =
      if n ∈ active then .error ⟨active.headD n, .cycle (cyclePath n active)⟩
      else p.body.toRegex n (g.expand (n :: active)) := by
  rw [expand]
  split
  · rename_i missing
    rw [found] at missing
    cases missing
  · rename_i q again
    rw [found] at again
    cases again
    exact dite_eq_ite

theorem expand_eq_ok_iff {active : List String} {n : String} {r : Regex} :
    g.expand active n = .ok r ↔
      ∃ p, g.get? n = some p ∧ n ∉ active ∧ p.body.toRegex n (g.expand (n :: active)) = .ok r := by
  cases found : g.get? n with
  | none => simp [expand_of_missing found]
  | some p => by_cases cyclic : n ∈ active <;> simp [expand_of_found found, cyclic]

/-- Induction along an expansion that succeeds: the names in a body are expanded inside of it. -/
theorem expand_induction {motive : (active : List String) → (n : String) → (r : Regex) → g.expand active n = .ok r → Prop}
    (step : ∀ active n p r h, g.get? n = some p → n ∉ active → p.body.toRegex n (g.expand (n :: active)) = .ok r →
      (∀ m s inner, motive (n :: active) m s inner) → motive active n r h)
    {active : List String} {n : String} {r : Regex} (h : g.expand active n = .ok r) : motive active n r h := by
  induction active, n using Grammar.expand.induct g generalizing r with
  | case1 active n missing =>
    obtain ⟨p, found, -⟩ := expand_eq_ok_iff.mp h
    rw [missing] at found
    cases found
  | case2 active n p found cyclic =>
    obtain ⟨-, -, fresh, -⟩ := expand_eq_ok_iff.mp h
    exact absurd cyclic fresh
  | case3 active n p found fresh ih =>
    obtain ⟨q, again, -, body⟩ := expand_eq_ok_iff.mp h
    exact step active n q r h again fresh body fun m s inner => ih m inner

/-- Fewer productions around a name do not change its regular expression. -/
theorem expand_mono {active fewer : List String} {n : String} {r : Regex} (h : g.expand active n = .ok r)
    (sub : ∀ m ∈ fewer, m ∈ active) : g.expand fewer n = .ok r := by
  induction h using expand_induction generalizing fewer with
  | step active n p r _ found fresh body ih =>
    refine expand_eq_ok_iff.mpr ⟨p, found, fun member => fresh (sub n member), ?_⟩
    refine Expr.toRegex_mono (fun m _ s inner => ih m s inner fun k member => ?_) body
    rcases List.mem_cons.mp member with same | member
    · exact same ▸ List.mem_cons_self
    · exact List.mem_cons_of_mem _ (sub k member)

theorem regex_of_expand {active : List String} {n : String} {r : Regex} (h : g.expand active n = .ok r) :
    g.regex n = .ok r := expand_mono h fun _ member => nomatch member

/-- The regular expression of a production is that of its body, with those of the names in it. -/
theorem toRegex_of_regex {n : String} {r : Regex} (h : g.regex n = .ok r) :
    ∃ p, g.get? n = some p ∧ p.body.toRegex n g.regex = .ok r := by
  obtain ⟨p, found, -, body⟩ := expand_eq_ok_iff.mp h
  exact ⟨p, found, Expr.toRegex_mono (fun _ _ _ inner => regex_of_expand inner) body⟩

theorem toRegex_of_found {n : String} {r : Regex} {p : Production} (h : g.regex n = .ok r) (found : g.get? n = some p) :
    p.body.toRegex n g.regex = .ok r := by
  obtain ⟨q, again, body⟩ := toRegex_of_regex h
  rw [found] at again
  cases again
  exact body

/-- Induction along the references of a production that has a regular expression. -/
theorem regex_induction {motive : (n : String) → (r : Regex) → g.regex n = .ok r → Prop}
    (step : ∀ n p r h, g.get? n = some p → p.body.toRegex n g.regex = .ok r →
      (∀ m ∈ p.body.references, ∀ s inner, motive m s inner) → motive n r h)
    {n : String} {r : Regex} (h : g.regex n = .ok r) : motive n r h := by
  have all {active : List String} {n : String} {r : Regex} (h : g.expand active n = .ok r) (whole : g.regex n = .ok r) :
      motive n r whole := by
    induction h using expand_induction with
    | step active n p r _ found fresh body ih =>
      refine step n p r whole found (Expr.toRegex_mono (fun _ _ _ inner => regex_of_expand inner) body) ?_
      intro m member s alone
      -- What `m` is expanded to in the body is what it is expanded to on its own.
      obtain ⟨t, inner⟩ := Expr.lookUp_of_toRegex _ body m member
      have same := regex_of_expand inner
      rw [alone] at same
      cases same
      exact ih m s inner alone
  exact all h h

/-- What regular expressions inherit, those of productions have. -/
theorem inherited_regex {property : Regex → Prop} (inherited : Expr.Inherited property) {n : String} {r : Regex}
    (h : g.regex n = .ok r) : property r := by
  induction h using regex_induction with
  | step n p r _ found body ih => exact inherited.toRegex p.body body ih

theorem Refers.mem {a b : String} {p : Production} (refers : g.Refers a b) (found : g.get? a = some p) :
    b ∈ p.body.references := by
  obtain ⟨q, again, member⟩ := refers
  rw [found] at again
  cases again
  exact member

theorem Reaches.single {a b : String} (h : g.Refers a b) : g.Reaches a b := .step .refl h

theorem Reaches.trans {a b c : String} (first : g.Reaches a b) (second : g.Reaches b c) : g.Reaches a c := by
  induction second with
  | refl => exact first
  | step _ refers ih => exact .step ih refers

theorem Reaches.head {a b c : String} (first : g.Refers a b) (second : g.Reaches b c) : g.Reaches a c :=
  (Reaches.single first).trans second

/-- A chain is empty, or it has a first reference. -/
theorem Reaches.cases_head {a c : String} (h : g.Reaches a c) : a = c ∨ ∃ b, g.Refers a b ∧ g.Reaches b c := by
  induction h with
  | refl => exact .inl rfl
  | step chain refers ih =>
    rcases ih with rfl | ⟨b, first, others⟩
    · exact .inr ⟨_, refers, .refl⟩
    · exact .inr ⟨b, first, .step others refers⟩

/-- A name that can be expanded inside some productions leads back to none of them. -/
theorem not_mem_of_reaches {active : List String} {n m : String} {r : Regex} (h : g.expand active n = .ok r)
    (chain : g.Reaches n m) : m ∉ active := by
  induction h using expand_induction with
  | step active n p r _ found fresh body ih =>
    rcases chain.cases_head with rfl | ⟨k, refers, later⟩
    · exact fresh
    · obtain ⟨s, inner⟩ := Expr.lookUp_of_toRegex _ body k (refers.mem found)
      exact fun isActive => ih k s inner later (List.mem_cons_of_mem n isActive)

theorem regex_of_refers {n m : String} {r : Regex} (h : g.regex n = .ok r) (refers : g.Refers n m) :
    ∃ s, g.regex m = .ok s := by
  obtain ⟨p, found, body⟩ := toRegex_of_regex h
  exact Expr.lookUp_of_toRegex _ body m (refers.mem found)

/-- Whatever a production with a regular expression depends on has a regular expression, too. -/
theorem regex_of_reaches {n m : String} {r : Regex} (h : g.regex n = .ok r) (chain : g.Reaches n m) :
    ∃ s, g.regex m = .ok s := by
  induction chain with
  | refl => exact ⟨r, h⟩
  | step _ refers ih =>
    obtain ⟨_, found⟩ := ih
    exact regex_of_refers found refers

theorem toRegex_of_reaches {n m : String} {r : Regex} (h : g.regex n = .ok r) (chain : g.Reaches n m) {p : Production}
    (found : g.get? m = some p) : ∃ s, g.regex m = .ok s ∧ p.body.toRegex m g.regex = .ok s := by
  obtain ⟨s, whole⟩ := regex_of_reaches h chain
  exact ⟨s, whole, toRegex_of_found whole found⟩

end Grammar

end RegularGrammar
