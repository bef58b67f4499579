import RegularGrammar.Expr.Draft
import RegularGrammar.Proofs.Grammar.Phrase

/-!
# Drafts and derivations

The tokens of a derivation lead a draft to the expression of the derivation, and
whatever tokens a draft has taken derive what it holds.
-/

namespace RegularGrammar

open Source (TokenKind)
open Phrase (Term Alternative Expression barredKinds)

namespace Draft

/-- The body with more tokens, if they all fit. -/
def read (d : Draft) (ks : List TokenKind) : Option Draft := ks.foldlM step d

@[simp]
theorem read_cons {d : Draft} {k : TokenKind} {ks : List TokenKind} :
    d.read (k :: ks) = (d.step k).bind (·.read ks) := rfl

@[simp]
theorem read_append {d : Draft} {us vs : List TokenKind} : d.read (us ++ vs) = (d.read us).bind (·.read vs) :=
  List.foldlM_append

/-- No first bound of a range waits for the last one. -/
def Open (d : Draft) : Prop := ∀ first, d.tail ≠ .bound first

theorem open_of_nothing {outer : List (Bracket × Level)} {level : Level} : Open ⟨outer, level, .nothing⟩ := by
  intro first bound
  cases bound

theorem Open.settled_eq {d : Draft} (h : d.Open) : d.settled = ⟨d.outer, d.settled.level, .nothing⟩ := by
  unfold settled
  obtain ⟨outer, level, tail⟩ := d
  cases tail with
  | nothing => rfl
  | literal text => rfl
  | bound first => exact absurd rfl (h first)

theorem Open.step_eq {d : Draft} (h : d.Open) {k : TokenKind} (other : k ≠ .ellipsis) :
    d.step k = d.settled.stepSettled k := by
  unfold step
  cases found : d.tail with
  | nothing => rfl
  | literal text =>
    cases k with
    | ellipsis => exact absurd rfl other
    | _ => rfl
  | bound first => exact absurd found (h first)

theorem finish?_eq_some_iff {d : Draft} {e : Expr} : d.finish? = some e ↔
    d.Open ∧ d.outer = [] ∧ d.settled.level.isComplete = true ∧ d.settled.level.expr = e := by
  obtain ⟨outer, level, tail⟩ := d
  cases tail with
  | bound first => simp [finish?, Open]
  | _ => cases outer <;> simp [finish?, Open]

/-! ## From derivations to drafts -/

/-- The tokens lead, inside the same brackets, to a draft whose level has a property. -/
def Leads (d : Draft) (ks : List TokenKind) (property : Level → Prop) : Prop :=
  ∃ d', d.read ks = some d' ∧ d'.Open ∧ d'.outer = d.outer ∧ property d'.settled.level

theorem leads_of_step {d : Draft} {k : TokenKind} {level : Level} (stepped : d.step k = some ⟨d.outer, level, .nothing⟩) :
    d.Leads [k] (· = level) := by
  refine ⟨⟨d.outer, level, .nothing⟩, ?_, open_of_nothing, rfl, rfl⟩
  rw [read_cons, stepped]
  rfl

theorem Leads.append {d : Draft} {us vs : List TokenKind} {p q : Level → Prop} (first : d.Leads us p)
    (second : ∀ d' : Draft, d'.Open → d'.outer = d.outer → p d'.settled.level → d'.Leads vs q) :
    d.Leads (us ++ vs) q := by
  obtain ⟨d', read, isOpen, outer, holds⟩ := first
  obtain ⟨d'', readRest, isOpen', outer', holds'⟩ := second d' isOpen outer holds
  refine ⟨d'', ?_, isOpen', outer'.trans outer, holds'⟩
  simp [read, readRest]

@[simp]
theorem complemented_complement (e : Expr) (n : Nat) :
    (Expr.complement e).complemented n = .complement (e.complemented n) := by
  induction n with
  | zero => rfl
  | succ n ih => rw [Expr.complemented, Expr.complemented, ih]

@[simp]
theorem addNegation_addTerm (l : Level) (e : Expr) : l.addNegation.addTerm e = l.addTerm (.complement e) := by
  rw [Level.addTerm, Level.addTerm, complemented_complement]
  rfl

mutual

theorem read_term : (t : Term) → {d : Draft} → d.Open → d.Leads t.kinds (· = d.settled.level.addTerm t.expr)
  | .name text, d, h => by
    apply leads_of_step
    rw [h.step_eq (by simp), h.settled_eq]
    rfl
  | .literal text, d, h => by
    refine ⟨⟨d.outer, d.settled.level, .literal text⟩, ?_, ?_, rfl, rfl⟩
    · rw [Term.kinds, read_cons, h.step_eq (by simp), h.settled_eq]
      rfl
    · intro first bound
      cases bound
  | .range first last, d, h => by
    refine ⟨⟨d.outer, d.settled.level.addTerm (.range first last), .nothing⟩, ?_, open_of_nothing, rfl, rfl⟩
    rw [Term.kinds, read_cons, h.step_eq (by simp), h.settled_eq]
    rfl
  | .not body, d, h => by
    have negated : d.Leads [.not] (· = d.settled.level.addNegation) := by
      apply leads_of_step
      rw [h.step_eq (by simp), h.settled_eq]
      rfl
    rw [Term.kinds, ← List.singleton_append]
    refine negated.append fun d' isOpen _ level => ?_
    have inside := read_term body isOpen
    rw [level, addNegation_addTerm] at inside
    exact inside
  | .enclosed bracket body, d, h => by
    have opened : d.step (.opening bracket) = some ⟨(bracket, d.settled.level) :: d.outer, .start, .nothing⟩ := by
      rw [h.step_eq (by simp), h.settled_eq]
      rfl
    obtain ⟨d', read, isOpen, outer, complete, expr⟩ :=
      read_expression body (d := ⟨(bracket, d.settled.level) :: d.outer, .start, .nothing⟩) open_of_nothing rfl
    refine ⟨⟨d.outer, d.settled.level.addTerm (d'.settled.level.expr.enclose bracket), .nothing⟩, ?_, open_of_nothing,
      rfl, ?_⟩
    · have closed : d'.step (.closing bracket) =
          some ⟨d.outer, d.settled.level.addTerm (d'.settled.level.expr.enclose bracket), .nothing⟩ := by
        rw [isOpen.step_eq (by simp), isOpen.settled_eq, outer]
        simp [stepSettled, complete]
      rw [Term.kinds, List.cons_append, read_cons, opened, Option.bind_some, read_append, read, Option.bind_some,
        read_cons, closed]
      rfl
    · rw [Term.expr_enclosed, body.expr_eq, expr]
      rfl

theorem read_alternative : (a : Alternative) → {d : Draft} → d.Open → {alternatives terms : List Expr} →
    d.settled.level = ⟨alternatives, terms, 0⟩ → d.Leads a.kinds (· = ⟨alternatives, a.exprs.reverse ++ terms, 0⟩)
  | .last t, d, h, alternatives, terms, before => by
    have inside := read_term t h
    rw [before] at inside
    exact inside
  | .more t rest, d, h, alternatives, terms, before => by
    have inside := read_term t h
    rw [before] at inside
    refine inside.append fun d' isOpen _ level => ?_
    have others := read_alternative rest isOpen level
    simpa [Alternative.exprs, Expr.complemented] using others

theorem read_expression : (e : Expression) → {d : Draft} → d.Open → {alternatives : List Expr} →
    d.settled.level = ⟨alternatives, [], 0⟩ →
    d.Leads e.kinds fun level => level.isComplete = true ∧ level.expr = Expr.alternativeOf (alternatives.reverse ++ e.exprs)
  | .last a, d, h, alternatives, before => by
    obtain ⟨d', read, isOpen, outer, level⟩ := read_alternative a h before
    refine ⟨d', read, isOpen, outer, ?_⟩
    rw [level]
    simp [Level.isComplete, Level.expr, a.exprs_ne_nil, Expression.exprs, a.expr_eq]
  | .more a rest, d, h, alternatives, before => by
    refine (read_alternative a h before).append fun d' isOpen _ level => ?_
    have bar : d'.Leads [.pipe] (· = ⟨a.expr :: alternatives, [], 0⟩) := by
      apply leads_of_step
      rw [isOpen.step_eq (by simp), isOpen.settled_eq, level]
      simp [stepSettled, Level.isComplete, a.exprs_ne_nil, Level.addAlternative, a.expr_eq]
    rw [← List.singleton_append]
    refine bar.append fun d'' isOpen' _ level' => ?_
    have others := read_expression rest isOpen' level'
    simpa [Expression.exprs] using others

end

/-- The tokens of a whole body lead to its expression. -/
theorem read_body (e : Expression) : ∃ d, start.read e.kinds = some d ∧ d.finish? = some e.expr := by
  obtain ⟨d, read, isOpen, outer, complete, expr⟩ := read_expression e (d := start) open_of_nothing rfl
  refine ⟨d, read, finish?_eq_some_iff.mpr ⟨isOpen, outer, complete, ?_⟩⟩
  rw [expr, e.expr_eq]
  rfl

end Draft

/-! ## From drafts to derivations -/

/-- The tokens derive what a level holds. -/
def Level.Derived (l : Level) (ks : List TokenKind) : Prop :=
  ∃ (as : List Alternative) (ts : List Term), l.alternatives = (as.map Alternative.expr).reverse ∧
    l.terms = (ts.map Term.expr).reverse ∧
      ks = barredKinds as ++ ts.flatMap Term.kinds ++ List.replicate l.negations .not

namespace Level

theorem start_derived : start.Derived [] := ⟨[], [], rfl, rfl, rfl⟩

theorem Derived.addTerm {l : Level} {ks : List TokenKind} (h : l.Derived ks) (t : Term) :
    (l.addTerm t.expr).Derived (ks ++ t.kinds) := by
  obtain ⟨as, ts, alternatives, terms, rfl⟩ := h
  refine ⟨as, ts ++ [t.negated l.negations], alternatives, ?_, ?_⟩
  · simp [Level.addTerm, terms]
  · simp [Level.addTerm]

theorem Derived.addNegation {l : Level} {ks : List TokenKind} (h : l.Derived ks) :
    l.addNegation.Derived (ks ++ [.not]) := by
  obtain ⟨as, ts, alternatives, terms, rfl⟩ := h
  refine ⟨as, ts, alternatives, terms, ?_⟩
  rw [Level.addNegation, List.replicate_succ', List.append_assoc]

/-- The current alternative of a complete level is a tree. -/
theorem Derived.alternative {l : Level} {ks : List TokenKind} (h : l.Derived ks) (complete : l.isComplete = true) :
    ∃ as, ∃ a : Alternative, l.alternatives = (as.map Alternative.expr).reverse ∧
      Expr.sequenceOf l.terms.reverse = a.expr ∧ ks = barredKinds as ++ a.kinds := by
  obtain ⟨as, ts, alternatives, terms, rfl⟩ := h
  simp only [isComplete, Bool.and_eq_true, Bool.not_eq_true', List.isEmpty_eq_false_iff, decide_eq_true_eq] at complete
  obtain ⟨nonempty, none⟩ := complete
  cases ts with
  | nil => exact absurd terms nonempty
  | cons t rest =>
    refine ⟨as, .ofTerms t rest, alternatives, ?_, ?_⟩
    · simp [Alternative.expr_eq, terms]
    · simp [none]

theorem Derived.addAlternative {l : Level} {ks : List TokenKind} (h : l.Derived ks) (complete : l.isComplete = true) :
    l.addAlternative.Derived (ks ++ [.pipe]) := by
  obtain ⟨as, a, alternatives, current, rfl⟩ := h.alternative complete
  refine ⟨as ++ [a], [], ?_, rfl, ?_⟩
  · simp [Level.addAlternative, current, alternatives]
  · simp [Level.addAlternative, barredKinds]

/-- What a complete level holds is a tree. -/
theorem Derived.expression {l : Level} {ks : List TokenKind} (h : l.Derived ks) (complete : l.isComplete = true) :
    ∃ e : Expression, e.kinds = ks ∧ e.expr = l.expr := by
  obtain ⟨as, a, alternatives, current, rfl⟩ := h.alternative complete
  refine ⟨.ofAlternatives as a, Expression.kinds_ofAlternatives as a, ?_⟩
  simp [Expression.expr_eq, expr, current, alternatives]

end Level

namespace Draft

/-- The tokens derive what stands before and in the open brackets. -/
def OuterDerived : List (Bracket × Level) → List TokenKind → Prop
  | [], ks => ks = []
  | (bracket, level) :: outer, ks =>
    ∃ us vs, OuterDerived outer us ∧ level.Derived vs ∧ ks = us ++ vs ++ [.opening bracket]

def tailKinds : Tail → List TokenKind
  | .nothing => []
  | .literal text => [.literal text]
  | .bound first => [.literal first, .ellipsis]

/-- The tokens derive what a draft holds. -/
def Derived (d : Draft) (ks : List TokenKind) : Prop :=
  ∃ us vs, OuterDerived d.outer us ∧ d.level.Derived vs ∧ ks = us ++ vs ++ tailKinds d.tail

theorem start_derived : start.Derived [] := ⟨[], [], rfl, Level.start_derived, rfl⟩

theorem derived_of_level {outer : List (Bracket × Level)} {level : Level} {us vs : List TokenKind}
    (before : OuterDerived outer us) (inside : level.Derived vs) : Derived ⟨outer, level, .nothing⟩ (us ++ vs) :=
  ⟨us, vs, before, inside, (List.append_nil _).symm⟩

theorem Derived.settled {d : Draft} {ks : List TokenKind} (h : d.Derived ks) : d.settled.Derived ks := by
  obtain ⟨us, vs, before, inside, rfl⟩ := h
  obtain ⟨outer, level, tail⟩ := d
  cases tail with
  | nothing => exact ⟨us, vs, before, inside, rfl⟩
  | literal text =>
    rw [List.append_assoc]
    exact derived_of_level before (inside.addTerm (.literal text))
  | bound first => exact ⟨us, vs, before, inside, rfl⟩

theorem Derived.stepSettled {outer : List (Bracket × Level)} {level : Level} {ks : List TokenKind}
    (h : Derived ⟨outer, level, .nothing⟩ ks) {k : TokenKind} {d' : Draft}
    (stepped : Draft.stepSettled ⟨outer, level, .nothing⟩ k = some d') : d'.Derived (ks ++ [k]) := by
  obtain ⟨us, vs, before, inside, rfl⟩ := h
  rw [tailKinds, List.append_nil]
  cases k with
  | name text =>
    cases stepped
    rw [List.append_assoc]
    exact derived_of_level before (inside.addTerm (.name text))
  | literal text =>
    cases stepped
    exact ⟨us, vs, before, inside, rfl⟩
  | not =>
    cases stepped
    rw [List.append_assoc]
    exact derived_of_level before inside.addNegation
  | opening bracket =>
    cases stepped
    exact ⟨us ++ vs ++ [.opening bracket], [], ⟨us, vs, before, inside, rfl⟩, Level.start_derived, by simp [tailKinds]⟩
  | pipe =>
    simp only [Draft.stepSettled] at stepped
    split at stepped
    · rename_i complete
      cases stepped
      rw [List.append_assoc]
      exact derived_of_level before (inside.addAlternative complete)
    · cases stepped
  | closing bracket =>
    cases outer with
    | nil => cases stepped
    | cons opened outer =>
      obtain ⟨us', vs', before', inside', rfl⟩ := before
      simp only [Draft.stepSettled] at stepped
      split at stepped
      · rename_i fits
        obtain ⟨complete, rfl⟩ := fits
        cases stepped
        obtain ⟨e, rfl, expr⟩ := inside.expression complete
        have closed := inside'.addTerm (.enclosed opened.1 e)
        rw [Term.expr_enclosed, expr] at closed
        simpa [Term.kinds] using derived_of_level before' closed
      · cases stepped
  | equals => cases stepped
  | period => cases stepped
  | ellipsis => cases stepped

theorem Derived.step {d d' : Draft} {ks : List TokenKind} (h : d.Derived ks) {k : TokenKind}
    (stepped : d.step k = some d') : d'.Derived (ks ++ [k]) := by
  obtain ⟨outer, level, tail⟩ := d
  cases tail with
  | nothing => exact h.stepSettled stepped
  | literal text =>
    cases k with
    | ellipsis =>
      obtain ⟨us, vs, before, inside, rfl⟩ := h
      cases stepped
      exact ⟨us, vs, before, inside, by simp [tailKinds]⟩
    | _ => exact h.settled.stepSettled stepped
  | bound first =>
    cases k with
    | literal last =>
      obtain ⟨us, vs, before, inside, rfl⟩ := h
      cases stepped
      have same : us ++ vs ++ tailKinds (.bound first) ++ [.literal last] =
          us ++ (vs ++ (Term.range first last).kinds) := by simp [tailKinds, Term.kinds]
      rw [same]
      exact derived_of_level before (inside.addTerm (.range first last))
    | _ => cases stepped

theorem Derived.finish {d : Draft} {ks : List TokenKind} (h : d.Derived ks) {e : Expr} (finished : d.finish? = some e) :
    ∃ x : Expression, x.kinds = ks ∧ x.expr = e := by
  obtain ⟨isOpen, outer, complete, rfl⟩ := finish?_eq_some_iff.mp finished
  have settled := h.settled
  rw [isOpen.settled_eq, outer] at settled
  obtain ⟨us, vs, rfl, inside, rfl⟩ := settled
  simpa [tailKinds] using inside.expression complete

end Draft

/-! ## One derivation -/

/-- The tokens of an expression determine its derivation. -/
theorem expression_kinds_inj {e f : Expression} (same : e.kinds = f.kinds) : e = f := by
  obtain ⟨d, read, finished⟩ := Draft.read_body e
  obtain ⟨d', read', finished'⟩ := Draft.read_body f
  rw [same, read'] at read
  cases read
  rw [finished'] at finished
  exact Expression.expr_inj (Option.some.inj finished).symm

@[simp]
theorem Draft.step_period (d : Draft) : d.step .period = none := by
  unfold step
  cases d.tail <;> rfl

theorem Draft.period_not_mem {d d' : Draft} {ks : List TokenKind} (read : d.read ks = some d') : .period ∉ ks := by
  induction ks generalizing d with
  | nil => exact List.not_mem_nil
  | cons k rest ih =>
    rw [read_cons, Option.bind_eq_some_iff] at read
    obtain ⟨next, stepped, others⟩ := read
    refine List.not_mem_cons_of_ne_of_not_mem ?_ (ih others)
    rintro rfl
    rw [step_period] at stepped
    cases stepped

@[simp]
theorem period_not_mem_kinds (e : Expression) : .period ∉ e.kinds := by
  obtain ⟨d, read, -⟩ := Draft.read_body e
  exact Draft.period_not_mem read

end RegularGrammar
