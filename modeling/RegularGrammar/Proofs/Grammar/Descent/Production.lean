import RegularGrammar.Proofs.Grammar.Descent.Expression

/-!
# Grammars read by descent

A descent reads of every text what is read of it token by token. On the way it is never at fault:
the text is cut between characters only, no number grows too large, what was seen ahead is there,
and it comes to an end.
-/

namespace RegularGrammar

open Source (Item Token TokenKind Scan Scanner Yields)

namespace Descent

/-- The rest of a reading, once the body of a production has been read. -/
def closed (done : Grammar) (name : String) (offset : Nat) (body : Expr) (later : List Item) : Except ParseError Grammar :=
  if (done.get? name).isSome then .error (.redefined name offset)
  else Reading.run ⟨done.insert ⟨name, body⟩, .outside⟩ later

/-- What is read of a production from some stage on, and that the reading goes on after it. -/
inductive ProductionRead (stage : Stage) (name : String) (offset : Nat) (items : List Item) :
    Except ParseError Expr → List Item → Prop where
  | refused {e : ParseError} {later : List Item} : (∀ done : Grammar, Reading.run ⟨done, stage⟩ items = .error e) →
      ProductionRead stage name offset items (.error e) later
  | read {body : Expr} {later : List Item} :
      (∀ done : Grammar, Reading.run ⟨done, stage⟩ items = closed done name offset body later) →
        ProductionRead stage name offset items (.ok body) later

section

variable {done : Grammar} {name : String} {offset : Nat} {items rest later : List Item} {token : Token}

theorem run_named (isEquals : token.kind = .equals) :
    Reading.run ⟨done, .named name offset⟩ (.ok token :: rest) = Reading.run ⟨done, .opened name offset⟩ rest := by
  obtain ⟨_, position, origin⟩ := token
  cases isEquals
  rfl

theorem run_named_error (other : ∀ token, items.head? = some (.ok token) → token.kind ≠ .equals) :
    Reading.run ⟨done, .named name offset⟩ items = .error (refusal .equals items.head?) := by
  match items with
  | [] => rfl
  | .error e :: rest => rfl
  | .ok ⟨kind, position, origin⟩ :: rest =>
    cases kind with
    | equals => exact absurd rfl (other _ rfl)
    | _ => rfl

/-- A body that does not end at once is read like one that has begun. -/
theorem run_opened (other : ∀ token, items.head? = some (.ok token) → token.kind ≠ .period) :
    Reading.run ⟨done, .opened name offset⟩ items =
      (Context.reading ⟨done, name, offset, []⟩ .start .nothing).run items := by
  match items with
  | [] => rfl
  | .error e :: rest => rfl
  | .ok token :: rest =>
    rw [Reading.run, Reading.run, Reading.step_opened rfl (other token rfl), Context.reading,
      Reading.step_inside rfl (other token rfl)]
    rfl

theorem run_of_closed {r : Reading} {body : Expr} (step : r.step token = r.close name offset body) :
    r.run (.ok token :: rest) = closed r.done name offset body rest := by
  rw [Reading.run, step, Reading.close, closed]
  cases (r.done.get? name).isSome <;> rfl

theorem run_opened_period (isPeriod : token.kind = .period) :
    Reading.run ⟨done, .opened name offset⟩ (.ok token :: rest) = closed done name offset (.sequence []) rest := by
  obtain ⟨_, position, origin⟩ := token
  cases isPeriod
  exact run_of_closed rfl

theorem run_period {level : Level} (complete : level.isComplete = true) (isPeriod : token.kind = .period) :
    (Context.reading ⟨done, name, offset, []⟩ level .nothing).run (.ok token :: rest) =
      closed done name offset level.expr rest := by
  obtain ⟨_, position, origin⟩ := token
  cases isPeriod
  refine run_of_closed ?_
  simp [Context.reading, Reading.step, Draft.finish?, Draft.settled, complete]

end

section

variable {depth : Nat} {items : List Item}

theorem exists_body (text name : String) (offset : Nat) (enough : 5 * items.length + 3 < depth) : ∃ r later,
    Gives text (body depth) items r later ∧ ProductionRead (.opened name offset) name offset items r later ∧
      later.length ≤ items.length := by
  have seen : Gives text peekKind items (headKind items) items := gives_peekKind items
  cases head : headKind items with
  | error e =>
    rw [head] at seen
    obtain ⟨e, rest, rfl, rfl⟩ := exists_of_headKind_error head
    refine ⟨_, _, ?_, .refused fun done => rfl, Nat.le_refl _⟩
    rw [body]
    exact seen.bind_error
  | ok kind =>
    rw [head] at seen
    by_cases period : kind = some .period
    · subst period
      obtain ⟨token, rest, rfl, isPeriod⟩ := exists_of_headKind head
      have taken : Gives text (expect .period .period) (.ok token :: rest) (.ok ()) rest := gives_expect isPeriod _ _
      refine ⟨.ok (.sequence []), rest, ?_, .read fun done => run_opened_period isPeriod, Nat.le_succ _⟩
      rw [body]
      exact seen.bind (taken.bind (gives_pure _ _))
    · have other : ∀ token, items.head? = some (.ok token) → token.kind ≠ .period := by
        intro token first isPeriod
        obtain ⟨rest, rfl⟩ := List.head?_eq_some_iff.mp first
        cases head
        exact period (congrArg some isPeriod)
      have begun {r : Except ParseError Expr} {later : List Item} (h : Gives text (do
          let e ← expression depth
          expect .period .period
          return e) items r later) : Gives text (body depth) items r later := by
        rw [body]
        refine seen.bind ?_
        rwa [if_neg period]
      obtain ⟨r, later, read, part, shorter⟩ := (reads_all text depth).expression items enough
      cases part with
      | refused failed =>
        exact ⟨_, later, begun read.bind_error, .refused fun done => (run_opened other).trans (failed _), shorter⟩
      | @read level e _ complete fit ends onward =>
        subst fit
        rcases expect_cases text .period .period later with ⟨token, rest, rfl, isPeriod, taken⟩ | ⟨notClosed, refused⟩
        · refine ⟨.ok level.expr, rest, begun (read.bind (taken.bind (gives_pure _ _))), .read fun done => ?_,
            Nat.le_of_succ_le shorter⟩
          rw [run_opened other, onward, run_period complete isPeriod]
        · refine ⟨_, later.tail, begun (read.bind refused.bind_error), .refused fun done => ?_,
            Nat.le_trans (by simp) shorter⟩
          rw [run_opened other, onward]
          exact run_of_complete complete ends notClosed

theorem exists_production (text name : String) (offset : Nat) (enough : 5 * items.length + 3 < depth) : ∃ r later,
    Gives text (production depth) items r later ∧ ProductionRead (.named name offset) name offset items r later ∧
      later.length ≤ items.length := by
  rw [production]
  rcases expect_cases text .equals .equals items with ⟨token, rest, rfl, isEquals, equals⟩ | ⟨other, refused⟩
  · have enough' : 5 * rest.length + 3 < depth := by
      rw [List.length_cons] at enough
      omega
    obtain ⟨r, later, read, body, shorter⟩ := exists_body text name offset enough'
    refine ⟨r, later, equals.bind read, ?_, Nat.le_succ_of_le shorter⟩
    cases body with
    | refused failed => exact .refused fun done => (run_named isEquals).trans (failed done)
    | read onward => exact .read fun done => (run_named isEquals).trans (onward done)
  · exact ⟨_, items.tail, refused.bind_error, .refused fun done => run_named_error other, by simp⟩

theorem exists_productions (text : String) (done : Grammar) (enough : 5 * items.length + 3 < depth) :
    ∃ later, Gives text (productions depth done) items (Reading.run ⟨done, .outside⟩ items) later := by
  induction depth generalizing done items with
  | zero => cases enough
  | succ depth ih =>
    rw [productions]
    match items with
    | [] => exact ⟨[], (gives_next []).bind (gives_pure done [])⟩
    | .error e :: rest => exact ⟨rest, (gives_next _).bind (gives_throw _ rest)⟩
    | .ok ⟨kind, offset, origin⟩ :: rest =>
      rw [List.length_cons] at enough
      cases kind with
      | name name =>
        have enough' : 5 * rest.length + 3 < depth := by omega
        obtain ⟨r, later, read, production, shorter⟩ := exists_production text name offset enough'
        have named : Reading.run ⟨done, .outside⟩ (.ok ⟨.name name, offset, origin⟩ :: rest) =
            Reading.run ⟨done, .named name offset⟩ rest := rfl
        rw [named]
        cases production with
        | refused failed =>
          refine ⟨later, (gives_next _).bind ?_⟩
          rw [failed]
          exact read.bind_error
        | @read body _ onward =>
          rw [onward, closed]
          by_cases taken : (done.get? name).isSome = true
          · refine ⟨later, (gives_next _).bind (read.bind ?_)⟩
            rw [if_pos taken, if_pos taken]
            exact gives_throw _ _
          · have enough' : 5 * later.length + 3 < depth := by omega
            obtain ⟨latest, readMore⟩ := ih (done.insert ⟨name, body⟩) enough'
            refine ⟨latest, (gives_next _).bind (read.bind ?_)⟩
            rw [if_neg taken, if_neg taken]
            exact readMore
      | _ => exact ⟨rest, (gives_next _).bind (gives_throw _ rest)⟩

end

/-- No text has its parts nested too deep to be read. -/
theorem exists_grammar (text : String) : ∃ later,
    Gives text (grammar text) (Source.items text) (Grammar.ofText text) later := by
  have few : (Source.items text).length ≤ text.toList.length := (Source.scanned_items 0 text.toList).length_le
  exact exists_productions text .empty (by omega)

/-- No text makes a scan be at fault. Characters are cut where their encoding can be, and nowhere else without a fault.
    Calls of a scanner, in any order, are answered as a reader answers them, and what is left of the text always stands
    after the bytes counted. A descent reads what is read token by token. -/
theorem read_without_fault (text : String) :
    (∀ cs n, (Source.cut? cs n).isSome = true ↔ (⟨n⟩ : String.Pos.Raw).IsValid (String.ofList cs)) ∧
    (∀ calls c, ∃ s t, Yields (Scan.calls calls) (.start text) () s ∧ s.Placed text ∧
      Yields (Scan.call c) s (Source.Reader.answer text calls c) t ∧ t.Placed text) ∧
      ∃ t, Yields (grammar text).run (.start text) (Grammar.ofText text) t ∧ t.Placed text := by
  obtain ⟨later, read⟩ := exists_grammar text
  obtain ⟨t, yields, offers⟩ := read _ (Scanner.start_offers text)
  exact ⟨fun cs n => Source.cut?_isSome_iff, Scan.yields_answer text, t, yields, offers.placed⟩

end Descent

end RegularGrammar
