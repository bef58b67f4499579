import RegularGrammar.Proofs.Grammar.Expansion

/-!
# Unfolding names

The names in an expression can be replaced by groups with the bodies that they stand for,
over and over, until no name is left. Each round keeps the regular expression, so that of
a production is the one of its unfolded body, which needs no other production. Therefore
a name adds the same wherever it is reached, however often, and through whichever chain
of references.
-/

namespace RegularGrammar

namespace Expr

mutual

/-- An expression with other expressions in place of its names. -/
def replaceNames (names : String → Expr) : Expr → Expr
  | .range first last => .range first last
  | .literal text => .literal text
  | .sequence items => .sequence (replaceNamesAll names items)
  | .alternative items => .alternative (replaceNamesAll names items)
  | .repetition body => .repetition (replaceNames names body)
  | .option body => .option (replaceNames names body)
  | .group body => .group (replaceNames names body)
  | .name n => names n
  | .complement body => .complement (replaceNames names body)

def replaceNamesAll (names : String → Expr) : List Expr → List Expr
  | [] => []
  | e :: rest => replaceNames names e :: replaceNamesAll names rest

end

variable {names : String → Expr} {owner : String} {lookUp : String → Except Irregularity Regex}

mutual

@[simp]
theorem references_replaceNames :
    (e : Expr) → (e.replaceNames names).references = e.references.flatMap fun n => (names n).references
  | .range _ _ => rfl
  | .literal _ => rfl
  | .sequence items => by simp only [replaceNames, references, references_replaceNamesAll items]
  | .alternative items => by simp only [replaceNames, references, references_replaceNamesAll items]
  | .repetition body => by simp only [replaceNames, references, references_replaceNames body]
  | .option body => by simp only [replaceNames, references, references_replaceNames body]
  | .group body => by simp only [replaceNames, references, references_replaceNames body]
  | .name n => by simp only [replaceNames, references, List.flatMap_singleton]
  | .complement body => by simp only [replaceNames, references, references_replaceNames body]

@[simp]
theorem references_replaceNamesAll :
    (es : List Expr) → referencesAll (replaceNamesAll names es) =
      (referencesAll es).flatMap fun n => (names n).references
  | [] => rfl
  | e :: rest => by
    simp only [replaceNamesAll, referencesAll, references_replaceNames e, references_replaceNamesAll rest,
      List.flatMap_append]

end

mutual

/-- To replace a name is to look up the regular expression of what it is replaced by. -/
@[simp]
theorem toRegex_replaceNames : (e : Expr) →
    toRegex owner lookUp (e.replaceNames names) = toRegex owner (fun n => toRegex owner lookUp (names n)) e
  | .range _ _ => by simp only [replaceNames, toRegex]
  | .literal _ => by simp only [replaceNames, toRegex]
  | .sequence items => by simp only [replaceNames, toRegex, toRegexes_replaceNamesAll items]
  | .alternative items => by simp only [replaceNames, toRegex, toRegexes_replaceNamesAll items]
  | .repetition body => by simp only [replaceNames, toRegex, toRegex_replaceNames body]
  | .option body => by simp only [replaceNames, toRegex, toRegex_replaceNames body]
  | .group body => by simp only [replaceNames, toRegex, toRegex_replaceNames body]
  | .name n => by simp only [replaceNames, toRegex]
  | .complement body => by simp only [replaceNames, toRegex, toRegex_replaceNames body]

@[simp]
theorem toRegexes_replaceNamesAll : (es : List Expr) →
    toRegexes owner lookUp (replaceNamesAll names es) = toRegexes owner (fun n => toRegex owner lookUp (names n)) es
  | [] => rfl
  | e :: rest => by
    simp only [replaceNamesAll, toRegexes, toRegex_replaceNames e, toRegexes_replaceNamesAll rest]

end

variable {other : String}

mutual

/-- Only an irregularity tells in whose body it was met. -/
theorem toRegex_owner : (e : Expr) → {r : Regex} → toRegex owner lookUp e = .ok r → toRegex other lookUp e = .ok r
  | .range _ _, _, h => toRegex_range_iff.mpr (toRegex_range_iff.mp h)
  | .literal _, _, h => h
  | .sequence items, _, h => by
    obtain ⟨rs, found, same⟩ := toRegex_sequence_iff.mp h
    exact toRegex_sequence_iff.mpr ⟨rs, toRegexes_owner items found, same⟩
  | .alternative items, _, h => by
    obtain ⟨rs, found, same⟩ := toRegex_alternative_iff.mp h
    exact toRegex_alternative_iff.mpr ⟨rs, toRegexes_owner items found, same⟩
  | .repetition body, _, h => by
    obtain ⟨s, found, same⟩ := toRegex_repetition_iff.mp h
    exact toRegex_repetition_iff.mpr ⟨s, toRegex_owner body found, same⟩
  | .option body, _, h => by
    obtain ⟨s, found, same⟩ := toRegex_option_iff.mp h
    exact toRegex_option_iff.mpr ⟨s, toRegex_owner body found, same⟩
  | .group body, _, h => toRegex_owner body h
  | .name _, _, h => h
  | .complement body, _, h => by
    obtain ⟨s, found, negated⟩ := toRegex_complement_iff.mp h
    exact toRegex_complement_iff.mpr ⟨s, toRegex_owner body found, negated⟩

theorem toRegexes_owner : (es : List Expr) → {rs : List Regex} → toRegexes owner lookUp es = .ok rs →
    toRegexes other lookUp es = .ok rs
  | [], _, h => h
  | e :: rest, _, h => by
    obtain ⟨r, first, others, later, same⟩ := toRegexes_cons_iff.mp h
    exact toRegexes_cons_iff.mpr ⟨r, toRegex_owner e first, others, toRegexes_owner rest later, same⟩

end

end Expr

namespace Grammar

variable {g : Grammar}

/-- An expression with a group in place of every name that has a production, with its body inside. -/
def unfold (g : Grammar) (e : Expr) : Expr :=
  e.replaceNames fun n =>
    match g.get? n with
    | some p => .group p.body
    | none => .name n

/-- Names are replaced over and over until none is left. -/
inductive Unfolds (g : Grammar) : Expr → Expr → Prop where
  | closed {e : Expr} : e.references = [] → Unfolds g e e
  | round {e c : Expr} : e.references ≠ [] → Unfolds g (g.unfold e) c → Unfolds g e c

theorem unfold_name {n : String} {p : Production} (found : g.get? n = some p) : g.unfold (.name n) = .group p.body := by
  simp only [unfold, Expr.replaceNames, found]

theorem references_unfold (e : Expr) :
    (g.unfold e).references = e.references.flatMap fun n => (g.unfold (.name n)).references := by
  rw [unfold, Expr.references_replaceNames]
  rfl

/-- A round keeps the regular expression. -/
theorem toRegex_unfold {owner : String} {e : Expr} {r : Regex} (h : e.toRegex owner g.regex = .ok r) :
    (g.unfold e).toRegex owner g.regex = .ok r := by
  rw [unfold, Expr.toRegex_replaceNames]
  refine Expr.toRegex_mono ?_ h
  intro n _ s whole
  obtain ⟨p, found, body⟩ := toRegex_of_regex whole
  simp only [found, Expr.toRegex]
  exact Expr.toRegex_owner p.body body

theorem Unfolds.references_eq_nil {e c : Expr} (h : g.Unfolds e c) : c.references = [] := by
  induction h with
  | closed none => exact none
  | round _ _ ih => exact ih

/-- So do all rounds together. -/
theorem Unfolds.toRegex {owner : String} {e c : Expr} (h : g.Unfolds e c) {r : Regex}
    (found : e.toRegex owner g.regex = .ok r) : c.toRegex owner g.regex = .ok r := by
  induction h with
  | closed => exact found
  | round _ _ ih => exact ih (toRegex_unfold found)

/-- An expression without names is as good as a grammar of its own. -/
theorem regex_alone {owner : String} {c : Expr} {r : Regex} (closed : c.references = [])
    (h : c.toRegex owner g.regex = .ok r) (name : String) : (ofList [⟨name, c⟩]).regex name = .ok r := by
  have found : (ofList [⟨name, c⟩]).get? name = some ⟨name, c⟩ := (get?_insert empty ⟨name, c⟩ name).trans (if_pos rfl)
  refine expand_eq_ok_iff.mpr ⟨_, found, List.not_mem_nil, ?_⟩
  rw [← Expr.toRegex_owner c h]
  refine Expr.toRegex_congr c ?_
  intro n member
  rw [closed] at member
  cases member

def rounds (g : Grammar) : Nat → Expr → Expr
  | 0, e => e
  | k + 1, e => g.rounds k (g.unfold e)

theorem references_rounds (k : Nat) (e : Expr) :
    (g.rounds k e).references = e.references.flatMap fun n => (g.rounds k (.name n)).references := by
  induction k generalizing e with
  | zero => simp [rounds, Expr.references]
  | succ k ih =>
    have each (n : String) : (g.unfold (.name n)).references.flatMap (fun m => (g.rounds k (.name m)).references) =
        (g.rounds (k + 1) (.name n)).references := (ih (g.unfold (.name n))).symm
    calc (g.rounds (k + 1) e).references
      _ = (g.unfold e).references.flatMap fun m => (g.rounds k (.name m)).references := ih (g.unfold e)
      _ = e.references.flatMap fun n => (g.rounds (k + 1) (.name n)).references := by
        rw [references_unfold, List.flatMap_assoc]
        simp only [each]

/-- With each round the names that are left have fewer productions to lead to. -/
theorem rounds_closed_of_expand {active : List String} {n : String} {r : Regex} (h : g.expand active n = .ok r) {k : Nat}
    (enough : (g.idle active).length ≤ k) : (g.rounds k (.name n)).references = [] := by
  induction h using expand_induction generalizing k with
  | step active n p r _ found fresh body ih =>
    have fewer := idle_length_lt found fresh
    obtain ⟨k, rfl⟩ : ∃ j, k = j + 1 := ⟨k - 1, by omega⟩
    rw [rounds, unfold_name found, references_rounds, List.flatMap_eq_nil_iff]
    intro m member
    obtain ⟨s, inner⟩ := Expr.lookUp_of_toRegex p.body body m member
    exact ih m s inner (by omega)

theorem exists_unfolds_of_rounds {k : Nat} {e : Expr} (closed : (g.rounds k e).references = []) : ∃ c, g.Unfolds e c := by
  induction k generalizing e with
  | zero => exact ⟨e, .closed closed⟩
  | succ k ih =>
    by_cases none : e.references = []
    · exact ⟨e, .closed none⟩
    · obtain ⟨c, later⟩ := ih closed
      exact ⟨c, .round none later⟩

/-- What has a regular expression can be unfolded, in as many rounds as there are productions. -/
theorem exists_unfolds {owner : String} {e : Expr} {r : Regex} (h : e.toRegex owner g.regex = .ok r) :
    ∃ c, g.Unfolds e c := by
  have closed : (g.rounds (g.idle []).length e).references = [] := by
    rw [references_rounds, List.flatMap_eq_nil_iff]
    intro n member
    obtain ⟨s, whole⟩ := Expr.lookUp_of_toRegex e h n member
    exact rounds_closed_of_expand whole (Nat.le_refl _)
  exact exists_unfolds_of_rounds closed

/-- References lead from one name to another through the bodies of `active`, the innermost first. -/
inductive Chain (g : Grammar) (start : String) : List String → String → Prop where
  | start : Chain g start [] start
  | step {active : List String} {a b : String} : Chain g start active a → g.Refers a b → Chain g start (a :: active) b

theorem Chain.reaches {start n : String} {active : List String} (chain : g.Chain start active n) : g.Reaches start n := by
  induction chain with
  | start => exact .refl
  | step _ refers ih => exact .step ih refers

/-- What has a regular expression can be expanded to it inside of any chain that leads there. -/
theorem Chain.expand_ok {start n : String} {active : List String} {r : Regex} (chain : g.Chain start active n)
    (h : g.regex start = .ok r) : ∃ s, g.expand active n = .ok s := by
  induction chain with
  | start => exact ⟨r, h⟩
  | step _ refers ih =>
    obtain ⟨s, inside⟩ := ih
    obtain ⟨p, found, -, body⟩ := expand_eq_ok_iff.mp inside
    exact Expr.lookUp_of_toRegex p.body body _ (refers.mem found)

/-- Whatever a production with a regular expression leads to has one by itself, and adds just that wherever it is
    reached. The names in the body can be replaced by groups with the bodies of their productions until none is left,
    and what comes out has the same regular expression as the only production of a grammar, under any name. -/
theorem regex_compositional {n : String} {r : Regex} (h : g.regex n = .ok r) :
    (∀ m, g.Reaches n m →
      ∃ s, g.regex m = .ok s ∧ ∀ active, g.Chain n active m → g.expand active m = .ok s) ∧
    ∃ p, g.get? n = some p ∧ (∃ e, g.Unfolds p.body e) ∧
      ∀ e, g.Unfolds p.body e → e.references = [] ∧ ∀ name, (ofList [⟨name, e⟩]).regex name = .ok r := by
  constructor
  · intro m reaches
    obtain ⟨s, whole⟩ := regex_of_reaches h reaches
    refine ⟨s, whole, ?_⟩
    intro active chain
    obtain ⟨t, inside⟩ := chain.expand_ok h
    have same := regex_of_expand inside
    rw [whole] at same
    cases same
    exact inside
  · obtain ⟨p, found, body⟩ := toRegex_of_regex h
    refine ⟨p, found, exists_unfolds body, ?_⟩
    intro e unfolds
    have closed := unfolds.references_eq_nil
    exact ⟨closed, regex_alone closed (unfolds.toRegex body)⟩

def amountBody : Expr := .sequence [.name "digits", .complement (.name "digit"), .option (.name "cents")]

/-- Digits, reached from the start in three ways. -/
def amount : Grammar := .ofList
  [⟨"start", amountBody⟩, ⟨"cents", .group (.name "digits")⟩, ⟨"digits", .repetition (.name "digit")⟩,
   ⟨"digit", .range "0" "9"⟩]

def amountUnfolded : Expr :=
  .sequence [.group (.repetition (.group (.range "0" "9"))), .complement (.group (.range "0" "9")),
    .option (.group (.group (.group (.repetition (.group (.range "0" "9"))))))]

def amountRegex : Regex :=
  .concat [.star (.set ⟨[.between '0' '9']⟩), .set ⟨[.between '\x00' '/', .between ':' Scalar.last]⟩,
    .opt (.star (.set ⟨[.between '0' '9']⟩))]

theorem amount_unfolds : amount.Unfolds amountBody amountUnfolded := by
  have rounds : amount.unfold (amount.unfold (amount.unfold amountBody)) = amountUnfolded := by cbv
  have left (e : Expr) (some : e.references.isEmpty = false) : e.references ≠ [] := by
    intro none
    rw [none] at some
    cases some
  refine .round (left _ (by cbv)) (.round (left _ (by cbv)) (.round (left _ (by cbv)) ?_))
  rw [rounds]
  exact .closed (by cbv)

theorem regex_compositional_amount :
    amount.regex "start" = .ok amountRegex ∧
    (∃ s, amount.regex "digit" = .ok s ∧
      amount.expand ["start"] "digit" = .ok s ∧ amount.expand ["digits", "cents", "start"] "digit" = .ok s) ∧
    amount.Unfolds amountBody amountUnfolded ∧ (ofList [⟨"alone", amountUnfolded⟩]).regex "alone" = .ok amountRegex := by
  have found : amount.regex "start" = .ok amountRegex := by decide +kernel
  obtain ⟨parts, p, defined, -, alone⟩ := regex_compositional found
  have body : p.body = amountBody := by
    have start : amount.get? "start" = some ⟨"start", amountBody⟩ := by cbv
    rw [start] at defined
    cases defined
    rfl
  have refers (a b : String) (q : Production) (found : amount.get? a = some q) (member : q.body.references.contains b = true) :
      amount.Refers a b := ⟨q, found, List.contains_iff_mem.mp member⟩
  have cents : amount.Refers "start" "cents" := refers _ _ ⟨"start", amountBody⟩ (by cbv) (by cbv)
  have digits : amount.Refers "cents" "digits" := refers _ _ ⟨"cents", .group (.name "digits")⟩ (by cbv) (by cbv)
  have digit : amount.Refers "digits" "digit" := refers _ _ ⟨"digits", .repetition (.name "digit")⟩ (by cbv) (by cbv)
  have first : amount.Refers "start" "digit" := refers _ _ ⟨"start", amountBody⟩ (by cbv) (by cbv)
  obtain ⟨s, whole, inside⟩ := parts "digit" (.single first)
  refine ⟨found, ⟨s, whole, inside _ (.step .start first), inside _ ?_⟩, amount_unfolds, ?_⟩
  · exact .step (.step (.step .start cents) digits) digit
  · exact (alone _ (body ▸ amount_unfolds)).2 "alone"

end Grammar

end RegularGrammar
