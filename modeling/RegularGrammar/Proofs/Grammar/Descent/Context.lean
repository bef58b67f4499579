import RegularGrammar.Proofs.Grammar.Descent.Basic
import RegularGrammar.Proofs.Grammar.Reading

/-!
# Readings inside brackets

How a reading goes on inside a pair of brackets, whatever stands before and around them: where it
takes the next token, and where it refuses the next item because no term begins there or because
the brackets are not closed.
-/

namespace RegularGrammar

open Source (Item Token TokenKind)

/-- The alternatives of a level, the current one last. -/
def Level.choices (l : Level) : List Expr := (Expr.sequenceOf l.terms.reverse :: l.alternatives).reverse

/-- What stays as it is while the expression inside one pair of brackets is read. -/
structure Context where
  done : Grammar
  name : String
  offset : Nat
  outer : List (Bracket × Level)

namespace Context

/-- The reading of a body inside the brackets of a context. -/
def reading (c : Context) (level : Level) (tail : Tail) : Reading :=
  ⟨c.done, .inside c.name c.offset ⟨c.outer, level, tail⟩⟩

/-- The context inside a bracket that opens in a context. -/
def enter (c : Context) (bracket : Bracket) (level : Level) : Context :=
  ⟨c.done, c.name, c.offset, (bracket, level) :: c.outer⟩

/-- What closes the expression in a context. -/
def closer (c : Context) : TokenKind × Expected :=
  match c.outer with
  | [] => (.period, .period)
  | (bracket, _) :: _ => (.closing bracket, .closing bracket)

variable {c : Context} {level : Level} {tail : Tail} {token : Token} {items rest : List Item}

theorem run_of_step {outer : List (Bracket × Level)} {level' : Level} {tail' : Tail}
    (stepped : Draft.step ⟨c.outer, level, tail⟩ token.kind = some ⟨outer, level', tail'⟩) :
    (c.reading level tail).run (.ok token :: rest) =
      (reading ⟨c.done, c.name, c.offset, outer⟩ level' tail').run rest := by
  have other : token.kind ≠ .period := by
    intro period
    rw [period, Draft.step_period] at stepped
    cases stepped
  rw [Reading.run, Reading.step_inside rfl other, Reading.extend_eq_ok_iff.mpr ⟨_, stepped, rfl⟩]
  rfl

/-- Where a draft takes no next token and may not end, the next item is refused. -/
theorem run_of_stuck (stuck : ∀ token, items.head? = some (.ok token) →
      Draft.step ⟨c.outer, level, tail⟩ token.kind = none ∧
        (token.kind = .period → Draft.finish? ⟨c.outer, level, tail⟩ = none)) :
    (c.reading level tail).run items = .error (refusal (Draft.expected ⟨c.outer, level, tail⟩) items.head?) := by
  match items with
  | [] => rfl
  | .error e :: rest => rfl
  | .ok token :: rest =>
    obtain ⟨noStep, noEnd⟩ := stuck token rfl
    have refused : (c.reading level tail).step token = (c.reading level tail).misfit token := by
      by_cases period : token.kind = .period
      · obtain ⟨_, offset, origin⟩ := token
        cases period
        simp only [Reading.step, reading, noEnd rfl]
      · rw [Reading.step_inside rfl period]
        simp only [Reading.extend, noStep]
    rw [Reading.run, refused]
    rfl

/-- A literal that no ellipsis follows is a term. -/
theorem run_literal (text : String) (other : ∀ token, items.head? = some (.ok token) → token.kind ≠ .ellipsis) :
    (c.reading level (.literal text)).run items = (c.reading (level.addTerm (.literal text)) .nothing).run items := by
  match items with
  | [] => rfl
  | .error e :: rest => rfl
  | .ok ⟨kind, offset, origin⟩ :: rest =>
    have step : (c.reading level (.literal text)).step ⟨kind, offset, origin⟩ =
        (c.reading (level.addTerm (.literal text)) .nothing).step ⟨kind, offset, origin⟩ := by
      cases kind with
      | ellipsis => exact absurd rfl (other _ rfl)
      | period =>
        obtain ⟨done, name, offset, outer⟩ := c
        cases outer <;> rfl
      | _ => rfl
    rw [Reading.run, Reading.run, step]

end Context

namespace Descent

/-- No term begins here, and there is no error. -/
def EndsTerms (items : List Item) : Prop :=
  ∃ kind, headKind items = .ok kind ∧ ∀ k, kind = some k → startsTerm k = false

theorem EndsTerms.not_starts {items : List Item} (h : EndsTerms items) {token : Token}
    (head : items.head? = some (.ok token)) : startsTerm token.kind = false := by
  obtain ⟨rest, rfl⟩ := List.head?_eq_some_iff.mp head
  obtain ⟨kind, same, ends⟩ := h
  cases same
  exact ends _ rfl

/-- Where no alternative may end and no term begins, the next item is refused. -/
theorem run_of_incomplete {c : Context} {level : Level} {items : List Item} (incomplete : level.isComplete = false)
    (ends : EndsTerms items) : (c.reading level .nothing).run items =
      .error (refusal (Draft.expected ⟨c.outer, level, .nothing⟩) items.head?) := by
  apply Context.run_of_stuck
  intro token head
  have noStart := ends.not_starts head
  refine ⟨?_, fun _ => ?_⟩
  · cases kind : token.kind with
    | equals | period | ellipsis => rfl
    | pipe => simp [Draft.step, Draft.settled, Draft.stepSettled, incomplete]
    | closing bracket => cases outer : c.outer <;> simp [Draft.step, Draft.settled, Draft.stepSettled, incomplete]
    | _ =>
      rw [kind] at noStart
      cases noStart
  · cases outer : c.outer <;> simp [Draft.finish?, Draft.settled, incomplete]

theorem exists_of_headKind {items : List Item} {kind : TokenKind} (h : headKind items = .ok (some kind)) :
    ∃ token rest, items = .ok token :: rest ∧ token.kind = kind := by
  match items with
  | [] => cases h
  | .error e :: rest => cases h
  | .ok token :: rest => exact ⟨token, rest, rfl, by simpa [headKind] using h⟩

theorem exists_of_headKind_error {items : List Item} {e : ParseError} (h : headKind items = .error e) :
    ∃ cause rest, items = .error cause :: rest ∧ e = .invalidToken cause := by
  match items with
  | [] => cases h
  | .error cause :: rest => exact ⟨cause, rest, rfl, (Except.error.inj h).symm⟩
  | .ok token :: rest => cases h

/-- No term and no bar stands here, and there is no error. -/
def EndsExpression (items : List Item) : Prop := EndsTerms items ∧ headKind items ≠ .ok (some .pipe)

theorem EndsExpression.ne_pipe {items : List Item} (h : EndsExpression items) {token : Token}
    (head : items.head? = some (.ok token)) : token.kind ≠ .pipe := by
  obtain ⟨rest, rfl⟩ := List.head?_eq_some_iff.mp head
  exact fun pipe => h.2 (by rw [headKind, pipe])

theorem expected_of_complete {c : Context} {level : Level} (complete : level.isComplete = true) :
    Draft.expected ⟨c.outer, level, .nothing⟩ = c.closer.2 := by
  simp only [Level.isComplete, Bool.and_eq_true, Bool.not_eq_true', decide_eq_true_eq] at complete
  unfold Context.closer
  cases outer : c.outer <;> simp [Draft.expected, Draft.settled, complete]

/-- Where an expression may end but is not closed, the next item is refused. -/
theorem run_of_complete {c : Context} {level : Level} {items : List Item} (complete : level.isComplete = true)
    (ends : EndsExpression items) (other : ∀ token, items.head? = some (.ok token) → token.kind ≠ c.closer.1) :
    (c.reading level .nothing).run items = .error (refusal c.closer.2 items.head?) := by
  rw [← expected_of_complete complete]
  apply Context.run_of_stuck
  intro token head
  have noStart := ends.1.not_starts head
  have noBar := ends.ne_pipe head
  have noClose := other token head
  unfold Context.closer at noClose
  cases kind : token.kind with
  | equals | ellipsis => exact ⟨rfl, by simp⟩
  | period =>
    rw [kind] at noClose
    refine ⟨rfl, fun _ => ?_⟩
    cases outer : c.outer with
    | nil => simp [outer] at noClose
    | cons opened outer => rfl
  | pipe => exact absurd kind noBar
  | closing bracket =>
    rw [kind] at noClose
    refine ⟨?_, by simp⟩
    cases outer : c.outer with
    | nil => rfl
    | cons opened outer =>
      have otherBracket : bracket ≠ opened.1 := by simpa [outer] using noClose
      simp [Draft.step, Draft.settled, Draft.stepSettled, otherBracket]
  | _ =>
    rw [kind] at noStart
    cases noStart

end Descent

end RegularGrammar
