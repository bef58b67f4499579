import RegularGrammar.Grammar.Flaw
import RegularGrammar.Proofs.Grammar.Expansion

/-!
# What a production depends on

The expansion of a name reads nothing of a grammar but the productions that the name
leads to. Grammars that agree on those give the name the same regular expression and
the same patterns, or the same irregularity. So productions that are not reached from
a name may be put in, changed and taken out.
-/

namespace RegularGrammar.Grammar

/-- Two grammars say the same of every name that `n` leads to: neither defines it, or both do with the same body. -/
def AgreesFrom (g : Grammar) (n : String) (h : Grammar) : Prop :=
  ∀ m, g.Reaches n m → (g.get? m).map (·.body) = (h.get? m).map (·.body)

/-- Two grammars make the same of a name: a regular expression, by itself and for a whole text, with its pattern in
    each dialect, or else an irregularity. -/
def SameOutcome (g : Grammar) (n : String) (h : Grammar) : Prop :=
  g.regex n = h.regex n ∧ g.wholeRegex n = h.wholeRegex n ∧ ∀ d, g.pattern n d = h.pattern n d

variable {g h : Grammar} {n m : String}

theorem AgreesFrom.get?_eq (agree : g.AgreesFrom n h) (chain : g.Reaches n m) : g.get? m = h.get? m := by
  have same := agree m chain
  cases left : g.get? m with
  | none =>
    cases right : h.get? m with
    | none => rfl
    | some q => simp [left, right] at same
  | some p =>
    cases right : h.get? m with
    | none => simp [left, right] at same
    | some q =>
      have names : p.name = q.name := (name_of_get? left).trans (name_of_get? right).symm
      have bodies : p.body = q.body := by simpa [left, right] using same
      cases p
      cases q
      cases names
      cases bodies
      rfl

theorem AgreesFrom.of_refers (agree : g.AgreesFrom n h) (refers : g.Refers n m) : g.AgreesFrom m h := by
  intro k chain
  exact agree k (.head refers chain)

/-- Grammars that agree on what a name leads to expand it alike, inside whichever productions. -/
theorem AgreesFrom.expand_eq (agree : g.AgreesFrom n h) (active : List String) : g.expand active n = h.expand active n := by
  induction active, n using Grammar.expand.induct g with
  | case1 active n missing =>
    have missing' := agree.get?_eq .refl
    rw [missing] at missing'
    rw [expand_of_missing missing, expand_of_missing missing'.symm]
  | case2 active n p found cyclic =>
    have found' := agree.get?_eq .refl
    rw [found] at found'
    rw [expand_of_found found, expand_of_found found'.symm, if_pos cyclic, if_pos cyclic]
  | case3 active n p found fresh ih =>
    have found' := agree.get?_eq .refl
    rw [found] at found'
    rw [expand_of_found found, expand_of_found found'.symm, if_neg fresh, if_neg fresh]
    refine Expr.toRegex_congr p.body ?_
    intro m member
    exact ih m (agree.of_refers ⟨p, found, member⟩)

theorem AgreesFrom.sameOutcome (agree : g.AgreesFrom n h) : g.SameOutcome n h := by
  have regex : g.regex n = h.regex n := agree.expand_eq []
  have whole : g.wholeRegex n = h.wholeRegex n := by rw [wholeRegex, wholeRegex, regex]
  refine ⟨regex, whole, ?_⟩
  intro d
  rw [pattern, pattern, whole]

/-- The grammar without the production of a name. -/
def erase (g : Grammar) (name : String) : Grammar := ⟨without name g.productions, g.ascending.filter _⟩

theorem get?_erase_of_ne (other : n ≠ m) : (g.erase m).get? n = g.get? n := by
  simp only [get?, erase, without, List.find?_filter]
  congr 1
  funext p
  by_cases named : p.name = n
  · simp [named, other]
  · simp [named]

theorem agreesFrom_insert {p : Production} (unreached : ¬ g.Reaches n p.name) : g.AgreesFrom n (g.insert p) := by
  intro m chain
  have other : p.name ≠ m := by
    rintro rfl
    exact unreached chain
  simp [other]

theorem agreesFrom_erase (unreached : ¬ g.Reaches n m) : g.AgreesFrom n (g.erase m) := by
  intro k chain
  have other : k ≠ m := by
    rintro rfl
    exact unreached chain
  rw [get?_erase_of_ne other]

/-- What a grammar makes of a name depends on nothing but the productions that the name leads to: grammars that
    agree on these make the same of it, and the others may be put in, changed and taken out, whatever they are. -/
theorem outcome_of_reached (g : Grammar) (n : String) :
    (∀ h, g.AgreesFrom n h → g.SameOutcome n h) ∧
      (∀ p : Production, ¬ g.Reaches n p.name → g.SameOutcome n (g.insert p)) ∧
        ∀ m, ¬ g.Reaches n m → g.SameOutcome n (g.erase m) := by
  refine ⟨?_, ?_, ?_⟩
  · intro h agree
    exact agree.sameOutcome
  · intro p unreached
    exact (agreesFrom_insert unreached).sameOutcome
  · intro m unreached
    exact (agreesFrom_erase unreached).sameOutcome

/-- A start that leads to itself and to a name without a production, beside a range without proper bounds. -/
def looped : Grammar :=
  .ofList [⟨"start", .sequence [.option (.name "start"), .name "end"]⟩, ⟨"spare", .range "zz" "a"⟩]

theorem looped_reaches (h : looped.Reaches "start" m) : m = "start" ∨ m = "end" := by
  induction h with
  | refl => exact .inl rfl
  | step _ refers ih =>
    obtain ⟨p, found, member⟩ := refers
    rcases ih with rfl | rfl
    · have start : looped.get? "start" = some ⟨"start", .sequence [.option (.name "start"), .name "end"]⟩ := by cbv
      rw [start] at found
      cases found
      simpa [Expr.references, Expr.referencesAll] using member
    · have missing : looped.get? "end" = none := by cbv
      rw [missing] at found
      cases found

theorem outcome_of_reached_looped :
    looped.regex "start" = .error ⟨"start", .cycle ["start", "start"]⟩ ∧
    looped.AgreesFrom "start" (looped.erase "spare") ∧ looped.SameOutcome "start" (looped.erase "spare") ∧
    looped.SameOutcome "start" (looped.insert ⟨"spare", .name "spare"⟩) ∧
    looped.SameOutcome "start" (looped.insert ⟨"other", .complement (.name "start")⟩) := by
  obtain ⟨agreeing, inserted, erased⟩ := outcome_of_reached looped "start"
  have spare : ¬ looped.Reaches "start" "spare" := by
    intro chain
    exact absurd (looped_reaches chain) (by decide)
  have other : ¬ looped.Reaches "start" "other" := by
    intro chain
    exact absurd (looped_reaches chain) (by decide)
  have agree := agreesFrom_erase spare
  exact ⟨by cbv, agree, agreeing _ agree, inserted _ spare, inserted _ other⟩

end RegularGrammar.Grammar
