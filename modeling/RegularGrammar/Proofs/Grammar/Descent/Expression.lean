import RegularGrammar.Proofs.Grammar.Descent.Context

/-!
# Expressions read by descent

A descent reads a term, an alternative and an expression to its end or refuses an item in it. The
reading token by token goes on in the same way, with what was read as one term or one level.
-/

namespace RegularGrammar

open Source (Item Token TokenKind)

namespace Descent

/-- What is read of a term whose first tokens may have been taken, and that the reading goes on from these tokens
    as if that were a term. -/
inductive TermRead (tail : Tail) (items : List Item) : Except ParseError Expr → List Item → Prop where
  | refused {e : ParseError} {later : List Item} :
      (∀ (c : Context) (level : Level), (c.reading level tail).run items = .error e) → TermRead tail items (.error e) later
  | read {e : Expr} {later : List Item} :
      (∀ (c : Context) (level : Level),
        (c.reading level tail).run items = (c.reading (level.addTerm e) .nothing).run later) →
          TermRead tail items (.ok e) later

theorem TermRead.of_step {tail tail' : Tail} {token : Token} {rest later : List Item} {r : Except ParseError Expr}
    (h : TermRead tail' rest r later) (stepped : ∀ (c : Context) (level : Level),
      Draft.step ⟨c.outer, level, tail⟩ token.kind = some ⟨c.outer, level, tail'⟩) :
    TermRead tail (.ok token :: rest) r later := by
  cases h with
  | refused failed => exact .refused fun c level => (Context.run_of_step (stepped c level)).trans (failed c level)
  | read onward => exact .read fun c level => (Context.run_of_step (stepped c level)).trans (onward c level)

theorem exists_rangeEnd (text first : String) (items : List Item) : ∃ r later,
    Gives text (rangeEnd first) items r later ∧ TermRead (.bound first) items r later ∧ later.length ≤ items.length := by
  match items with
  | [] => exact ⟨_, _, (gives_next []).bind (gives_throw _ _), .refused fun _ _ => rfl, Nat.le_refl _⟩
  | .error e :: rest =>
    exact ⟨_, _, (gives_next _).bind (gives_throw _ _), .refused fun _ _ => rfl, Nat.le_succ _⟩
  | .ok ⟨kind, offset, origin⟩ :: rest =>
    cases kind with
    | literal last =>
      exact ⟨_, rest, (gives_next _).bind (gives_pure (Expr.range first last) _),
        .read fun c level => Context.run_of_step rfl, Nat.le_succ _⟩
    | _ =>
      refine ⟨_, rest, (gives_next _).bind (gives_throw _ _), .refused fun c level => ?_, Nat.le_succ _⟩
      refine Context.run_of_stuck ?_
      rintro _ ⟨⟩
      exact ⟨rfl, fun _ => rfl⟩

theorem exists_literalOrRange (text first : String) (items : List Item) : ∃ r later,
    Gives text (literalOrRange first) items r later ∧ TermRead (.literal first) items r later ∧
      later.length ≤ items.length := by
  match items with
  | [] =>
    refine ⟨.ok (.literal first), [], (gives_peekKind []).bind (gives_pure _ _), .read fun c level => ?_, Nat.le_refl _⟩
    exact Context.run_literal first (by simp)
  | .error e :: rest =>
    exact ⟨.error (.invalidToken e), _, (gives_peekKind _).bind_error, .refused fun _ _ => rfl, Nat.le_refl _⟩
  | .ok token :: rest =>
    by_cases ellipsis : token.kind = .ellipsis
    · obtain ⟨r, later, read, term, shorter⟩ := exists_rangeEnd text first rest
      refine ⟨r, later, (gives_peekKind _).bind ?_, term.of_step fun c level => ?_, Nat.le_succ_of_le shorter⟩
      · rw [if_pos (by rw [ellipsis])]
        exact (gives_next _).bind read
      · rw [ellipsis]
        rfl
    · refine ⟨.ok (.literal first), _, (gives_peekKind _).bind ?_, .read fun c level => ?_, Nat.le_refl _⟩
      · rw [if_neg (by simpa using ellipsis)]
        exact gives_pure _ _
      · exact Context.run_literal first (by simpa using ellipsis)

/-- What is read where a term may begin: none where none begins, and otherwise all of it. -/
inductive MaybeRead (items : List Item) : Except ParseError (Option Expr) → List Item → Prop where
  | failed {e : ParseError} : (∀ (c : Context) (level : Level), (c.reading level .nothing).run items = .error e) →
      MaybeRead items (.error e) items
  | missing : EndsTerms items → MaybeRead items (.ok none) items
  | begun {r : Except ParseError Expr} {later : List Item} : later.length < items.length →
      TermRead .nothing items r later → MaybeRead items (r.map some) later

/-- What is read of more terms or more alternatives than a level has. At its end the level is complete, and what is
    read and how the text goes on are as they should be. -/
inductive PartRead (level : Level) (items : List Item) (fits : Level → Expr → Prop) (ends : List Item → Prop) :
    Except ParseError Expr → List Item → Prop where
  | refused {e : ParseError} {later : List Item} :
      (∀ c : Context, (c.reading level .nothing).run items = .error e) → PartRead level items fits ends (.error e) later
  | read {level' : Level} {e : Expr} {later : List Item} : level'.isComplete = true → fits level' e → ends later →
      (∀ c : Context, (c.reading level .nothing).run items = (c.reading level' .nothing).run later) →
        PartRead level items fits ends (.ok e) later

theorem PartRead.of_run {level level' : Level} {items items' later : List Item} {fits : Level → Expr → Prop}
    {ends : List Item → Prop} {r : Except ParseError Expr} (h : PartRead level' items' fits ends r later)
    (same : ∀ c : Context, (c.reading level .nothing).run items = (c.reading level' .nothing).run items') :
    PartRead level items fits ends r later := by
  cases h with
  | refused failed => exact .refused fun c => (same c).trans (failed c)
  | read complete fit stops onward => exact .read complete fit stops fun c => (same c).trans (onward c)

/-- The current alternative of a level is an expression, beside the alternatives before it. -/
def IsCurrent (alternatives : List Expr) (level : Level) (e : Expr) : Prop :=
  level.alternatives = alternatives ∧ Expr.sequenceOf level.terms.reverse = e

section

variable {text : String} {depth : Nat} {items rest later : List Item} {token : Token}

theorem gives_term_missing (ends : EndsTerms items) : Gives text (term (depth + 1)) items (.ok none) items := by
  obtain ⟨kind, head, noStart⟩ := ends
  have seen : Gives text peekKind items (headKind items) items := gives_peekKind items
  rw [head] at seen
  rw [term]
  refine seen.bind ?_
  cases kind with
  | none => exact gives_pure _ _
  | some k =>
    simp only [noStart k rfl]
    exact gives_pure _ _

theorem gives_term_begun {r : Except ParseError Expr} (starts : startsTerm token.kind = true)
    (h : Gives text (termFrom depth token.kind) rest r later) :
    Gives text (term (depth + 1)) (.ok token :: rest) (r.map some) later := by
  rw [term]
  refine (gives_peekKind _).bind ?_
  simp only [starts]
  refine (gives_next _).bind ?_
  cases r with
  | error e => exact h.bind_error
  | ok e => exact h.bind (gives_pure _ _)

end

section

variable (text : String) (depth : Nat)

def ReadsTerm : Prop := ∀ items : List Item, 5 * items.length < depth →
  ∃ r later, Gives text (term depth) items r later ∧ MaybeRead items r later

def ReadsSequence : Prop := ∀ (items : List Item) (alternatives terms : List Expr), 5 * items.length + 1 < depth →
  ∃ r later, Gives text (sequence depth terms) items r later ∧
    PartRead ⟨alternatives, terms.reverse, 0⟩ items (IsCurrent alternatives) EndsTerms r later ∧
      later.length ≤ items.length

def ReadsAlternatives : Prop := ∀ (items : List Item) (level : Level), level.isComplete = true → EndsTerms items →
  5 * items.length + 2 < depth → ∃ r later, Gives text (alternatives depth level.choices) items r later ∧
    PartRead level items (fun level e => level.expr = e) EndsExpression r later ∧ later.length ≤ items.length

def ReadsExpression : Prop := ∀ items : List Item, 5 * items.length + 3 < depth →
  ∃ r later, Gives text (expression depth) items r later ∧
    PartRead .start items (fun level e => level.expr = e) EndsExpression r later ∧ later.length ≤ items.length

def ReadsTermFrom : Prop := ∀ (token : Token) (rest : List Item), startsTerm token.kind = true →
  5 * rest.length + 4 < depth → ∃ r later, Gives text (termFrom depth token.kind) rest r later ∧
    TermRead .nothing (.ok token :: rest) r later ∧ later.length ≤ rest.length

/-- Each part is read where the depth has room for its items. From an expression to its first term three calls are
    nested, and one more goes on after the first token of the term. -/
structure Reads : Prop where
  term : ReadsTerm text depth
  sequence : ReadsSequence text depth
  alternatives : ReadsAlternatives text depth
  expression : ReadsExpression text depth
  termFrom : ReadsTermFrom text depth

end

namespace Reads

variable {text : String} {depth : Nat} (reads : Reads text depth)

include reads

theorem term_succ : ReadsTerm text (depth + 1) := by
  intro items enough
  match items with
  | [] =>
    have ends : EndsTerms [] := ⟨none, rfl, by simp⟩
    exact ⟨_, _, gives_term_missing ends, .missing ends⟩
  | .error e :: rest =>
    refine ⟨.error (.invalidToken e), .error e :: rest, ?_, .failed fun c level => rfl⟩
    rw [Descent.term]
    exact (gives_peekKind _).bind_error
  | .ok token :: rest =>
    cases starts : startsTerm token.kind with
    | false =>
      have ends : EndsTerms (.ok token :: rest) := ⟨some token.kind, rfl, by simpa using starts⟩
      exact ⟨_, _, gives_term_missing ends, .missing ends⟩
    | true =>
      have enough' : 5 * rest.length + 4 < depth := by
        rw [List.length_cons] at enough
        omega
      obtain ⟨r, later, read, asTerm, shorter⟩ := reads.termFrom token rest starts enough'
      exact ⟨_, later, gives_term_begun starts read, .begun (Nat.lt_succ_of_le shorter) asTerm⟩

theorem sequence_succ : ReadsSequence text (depth + 1) := by
  intro items alternatives terms enough
  obtain ⟨r, later, read, maybe⟩ := reads.term items (Nat.lt_of_succ_lt_succ enough)
  rw [Descent.sequence]
  cases maybe with
  | failed failed => exact ⟨_, items, read.bind_error, .refused fun c => failed c _, Nat.le_refl _⟩
  | missing ends =>
    cases terms with
    | nil =>
      refine ⟨_, items.tail, read.bind (gives_missing .term items), .refused fun c => ?_, by simp⟩
      exact run_of_incomplete rfl ends
    | cons e terms =>
      refine ⟨_, items, read.bind (gives_pure (Expr.sequenceOf (e :: terms)) items), ?_, Nat.le_refl _⟩
      exact .read (by simp [Level.isComplete]) ⟨rfl, by rw [List.reverse_reverse]⟩ ends fun c => rfl
  | begun shorter asTerm =>
    cases asTerm with
    | refused failed => exact ⟨_, later, read.bind_error, .refused fun c => failed c _, Nat.le_of_lt shorter⟩
    | @read e _ onward =>
      have enough' : 5 * later.length + 1 < depth := by omega
      obtain ⟨r, latest, readMore, part, shorter'⟩ := reads.sequence later alternatives (terms ++ [e]) enough'
      refine ⟨r, latest, read.bind readMore, part.of_run fun c => ?_, Nat.le_trans shorter' (Nat.le_of_lt shorter)⟩
      rw [onward c]
      simp [Level.addTerm, Expr.complemented]

theorem alternatives_succ : ReadsAlternatives text (depth + 1) := by
  intro items level complete ends enough
  rw [Descent.alternatives]
  by_cases pipe : headKind items = .ok (some .pipe)
  · obtain ⟨token, rest, rfl, isPipe⟩ := exists_of_headKind pipe
    have bar : ∀ c : Context, (c.reading level .nothing).run (.ok token :: rest) =
        (c.reading level.addAlternative .nothing).run rest := by
      refine fun c => Context.run_of_step ?_
      rw [isPipe]
      simp [Draft.step, Draft.settled, Draft.stepSettled, complete]
    have seen : Gives text peekKind (.ok token :: rest) (headKind (.ok token :: rest)) (.ok token :: rest) :=
      gives_peekKind _
    rw [pipe] at seen
    rw [List.length_cons] at enough
    have enough' : 5 * rest.length + 1 < depth := by omega
    obtain ⟨r, later, read, part, shorter⟩ := reads.sequence rest level.addAlternative.alternatives [] enough'
    cases part with
    | refused failed =>
      refine ⟨_, later, seen.bind ?_, .refused fun c => (bar c).trans (failed c), Nat.le_succ_of_le shorter⟩
      rw [if_pos rfl]
      exact (gives_next _).bind read.bind_error
    | @read level' e _ complete' fit ends' onward =>
      have enough' : 5 * later.length + 2 < depth := by omega
      obtain ⟨r, latest, readMore, part, shorter'⟩ := reads.alternatives later level' complete' ends' enough'
      obtain ⟨before, rfl⟩ := fit
      have choices : level'.choices = level.choices ++ [Expr.sequenceOf level'.terms.reverse] := by
        rw [Level.choices, before, List.reverse_cons]
        rfl
      rw [choices] at readMore
      refine ⟨r, latest, seen.bind ?_, part.of_run fun c => (bar c).trans (onward c),
        Nat.le_succ_of_le (Nat.le_trans shorter' shorter)⟩
      rw [if_pos rfl]
      exact (gives_next _).bind (read.bind readMore)
  · obtain ⟨kind, head, -⟩ := id ends
    have seen : Gives text peekKind items (headKind items) items := gives_peekKind items
    rw [head] at seen pipe
    refine ⟨_, items, seen.bind ?_, .read complete rfl ⟨ends, ?_⟩ fun c => rfl, Nat.le_refl _⟩
    · rw [if_neg (by simpa using pipe)]
      exact gives_pure _ _
    · rwa [head]

theorem expression_succ : ReadsExpression text (depth + 1) := by
  intro items enough
  rw [Descent.expression]
  have enough' : 5 * items.length + 1 < depth := by omega
  obtain ⟨r, later, read, part, shorter⟩ := reads.sequence items [] [] enough'
  cases part with
  | refused failed => exact ⟨_, later, read.bind_error, .refused failed, shorter⟩
  | @read level e _ complete fit ends onward =>
    obtain ⟨none, rfl⟩ := fit
    have enough' : 5 * later.length + 2 < depth := by omega
    obtain ⟨r, latest, readMore, part, shorter'⟩ := reads.alternatives later level complete ends enough'
    rw [Level.choices, none] at readMore
    exact ⟨r, latest, read.bind readMore, part.of_run onward, Nat.le_trans shorter' shorter⟩

theorem termFrom_succ : ReadsTermFrom text (depth + 1) := by
  intro token rest starts enough
  obtain ⟨kind, offset, origin⟩ := token
  cases kind with
  | name name =>
    rw [Descent.termFrom]
    exact ⟨_, rest, gives_pure (Expr.name name) rest, .read fun c level => Context.run_of_step rfl, Nat.le_refl _⟩
  | literal first =>
    rw [Descent.termFrom]
    obtain ⟨r, later, read, asTerm, shorter⟩ := exists_literalOrRange text first rest
    exact ⟨r, later, read, asTerm.of_step fun c level => rfl, shorter⟩
  | not =>
    have step (c : Context) (level : Level) : (c.reading level .nothing).run (.ok ⟨.not, offset, origin⟩ :: rest) =
        (c.reading level.addNegation .nothing).run rest := Context.run_of_step rfl
    rw [Descent.termFrom]
    have enough' : 5 * rest.length < depth := by omega
    obtain ⟨r, later, read, maybe⟩ := reads.term rest enough'
    cases maybe with
    | failed failed =>
      exact ⟨_, rest, read.bind_error, .refused fun c level => (step c level).trans (failed c _), Nat.le_refl _⟩
    | missing ends =>
      refine ⟨_, rest.tail, read.bind (gives_missing .negatedTerm rest), .refused fun c level => ?_, by simp⟩
      rw [step, run_of_incomplete (by simp [Level.isComplete, Level.addNegation]) ends]
      simp [Draft.expected, Draft.settled, Level.addNegation]
    | begun shorter asTerm =>
      cases asTerm with
      | refused failed =>
        exact ⟨_, later, read.bind_error, .refused fun c level => (step c level).trans (failed c _), Nat.le_of_lt shorter⟩
      | @read e _ onward =>
        refine ⟨_, later, read.bind (gives_pure (Expr.complement e) later), .read fun c level => ?_, Nat.le_of_lt shorter⟩
        simp [step, onward]
  | opening bracket =>
    have step (c : Context) (level : Level) :
        (c.reading level .nothing).run (.ok ⟨.opening bracket, offset, origin⟩ :: rest) =
          ((c.enter bracket level).reading .start .nothing).run rest := Context.run_of_step rfl
    rw [Descent.termFrom]
    obtain ⟨r, later, read, part, shorter⟩ := reads.expression rest (Nat.lt_of_succ_lt_succ enough)
    cases part with
    | refused failed =>
      exact ⟨_, later, read.bind_error, .refused fun c level => (step c level).trans (failed _), shorter⟩
    | @read level' e _ complete fit ends onward =>
      subst fit
      have inside (c : Context) (level : Level) :
          (c.reading level .nothing).run (.ok ⟨.opening bracket, offset, origin⟩ :: rest) =
            ((c.enter bracket level).reading level' .nothing).run later := (step c level).trans (onward _)
      rcases expect_cases text (.closing bracket) (.closing bracket) later with
        ⟨token, latest, rfl, closing, closed⟩ | ⟨other, refused⟩
      · refine ⟨_, latest, read.bind (closed.bind (gives_pure (level'.expr.enclose bracket) latest)),
          .read fun c level => ?_, Nat.le_of_succ_le shorter⟩
        rw [inside]
        refine Context.run_of_step ?_
        rw [closing]
        simp [Context.enter, Draft.step, Draft.settled, Draft.stepSettled, complete]
      · refine ⟨_, later.tail, read.bind refused.bind_error, .refused fun c level => ?_, Nat.le_trans (by simp) shorter⟩
        rw [inside]
        exact run_of_complete complete ends other
  | _ => cases starts

end Reads

/-- Where it is deep enough, a descent reads as the reading token by token does. -/
theorem reads_all (text : String) (depth : Nat) : Reads text depth := by
  induction depth with
  | zero =>
    exact {
      term := fun _ none => absurd none (Nat.not_lt_zero _)
      sequence := fun _ _ _ none => absurd none (Nat.not_lt_zero _)
      alternatives := fun _ _ _ _ none => absurd none (Nat.not_lt_zero _)
      expression := fun _ none => absurd none (Nat.not_lt_zero _)
      termFrom := fun _ _ _ none => absurd none (Nat.not_lt_zero _) }
  | succ depth reads =>
    exact ⟨reads.term_succ, reads.sequence_succ, reads.alternatives_succ, reads.expression_succ, reads.termFrom_succ⟩

end Descent

end RegularGrammar
