import Mathlib.Data.List.Induction
import Mathlib.Data.List.Nodup
import RegularGrammar.Proofs.Grammar.Reading
import RegularGrammar.Proofs.Source.Tiling

/-!
# Where a text is refused

A text is refused at the first token after which nothing could make it a row of
productions, or where no token can be read, or at its end; or else at the first
production whose name is taken. What shows that a token is not refused too early is
a completion of all that stands before it.
-/

namespace RegularGrammar

open Source (Token TokenKind Item LexicalError)
open Phrase (Term Expression Rule bodyKinds rulesKinds)

/-- Some row of productions begins with the tokens, whether or not names repeat in it. -/
def Viable (ks : List TokenKind) : Prop := ∃ rules : List Rule, ks <+: rulesKinds rules

/-- With any term after it, what a level holds is a whole expression. -/
theorem Level.Derived.completed {l : Level} {ks : List TokenKind} (h : l.Derived ks) (t : Term) :
    ∃ e : Expression, e.kinds = ks ++ t.kinds := by
  have complete : (l.addTerm t.expr).isComplete = true := rfl
  obtain ⟨e, kinds, -⟩ := (h.addTerm t).expression complete
  exact ⟨e, kinds⟩

/-- Around any expression the open brackets can be closed, the innermost first. -/
theorem Draft.OuterDerived.completed {outer : List (Bracket × Level)} {us : List TokenKind}
    (h : OuterDerived outer us) (inner : Expression) :
    ∃ (more : List TokenKind) (e : Expression), e.kinds = us ++ inner.kinds ++ more := by
  induction outer generalizing us inner with
  | nil =>
    cases h
    exact ⟨[], inner, by simp⟩
  | cons opened outer ih =>
    obtain ⟨before, around, derived, level, rfl⟩ := h
    obtain ⟨closed, kinds⟩ := level.completed (.enclosed opened.1 inner)
    obtain ⟨more, e, whole⟩ := ih derived closed
    refine ⟨.closing opened.1 :: more, e, ?_⟩
    rw [whole, kinds]
    simp [Term.kinds]

/-- What the latest tokens leave open begins a term. -/
theorem exists_term_of_tail (tail : Tail) : ∃ (t : Term) (more : List TokenKind), t.kinds = Draft.tailKinds tail ++ more := by
  cases tail with
  | nothing => exact ⟨.name "x", [.name "x"], rfl⟩
  | literal text => exact ⟨.literal text, [], rfl⟩
  | bound first => exact ⟨.range first "", [.literal ""], rfl⟩

theorem Draft.Derived.completed {d : Draft} {ks : List TokenKind} (h : d.Derived ks) :
    ∃ (more : List TokenKind) (e : Expression), e.kinds = ks ++ more := by
  obtain ⟨us, vs, before, inside, rfl⟩ := h
  obtain ⟨t, rest, begins⟩ := exists_term_of_tail d.tail
  obtain ⟨inner, kinds⟩ := inside.completed t
  obtain ⟨more, e, whole⟩ := before.completed inner
  refine ⟨rest ++ more, e, ?_⟩
  rw [whole, kinds, begins]
  simp

/-- Whatever part of a production has been read, the rest of one can follow. -/
theorem Stage.Derived.viable {stage : Stage} {us : List TokenKind} (h : stage.Derived us) : Viable us := by
  cases stage with
  | outside =>
    cases h
    exact ⟨[], List.nil_prefix⟩
  | named name offset =>
    cases h
    exact ⟨[⟨name, none⟩], [.equals, .period], rfl⟩
  | opened name offset =>
    cases h
    exact ⟨[⟨name, none⟩], [.period], rfl⟩
  | inside name offset draft =>
    obtain ⟨vs, derived, rfl⟩ := h
    obtain ⟨more, e, whole⟩ := derived.completed
    refine ⟨[⟨name, some e⟩], more ++ [.period], ?_⟩
    simp [rulesKinds, Rule.kinds, bodyKinds, whole]

namespace Reading

theorem Derived.viable {r : Reading} {rules : List Rule} {us : List TokenKind} (h : r.Derived rules us) :
    Viable (rulesKinds rules ++ us) := by
  obtain ⟨others, begins⟩ := h.stage.viable
  refine ⟨rules ++ others, ?_⟩
  rw [rulesKinds_append]
  exact (List.prefix_append_right_inj _).mpr begins

theorem extend_eq_error {r : Reading} {name : String} {offset : Nat} {draft : Draft} {token : Token} {e : ParseError}
    (failed : r.extend name offset draft token = .error e) : e = .unexpected r.expected token.origin token.offset := by
  unfold extend at failed
  split at failed
  · cases failed
  · cases failed
    rfl

/-- A token is refused because it does not fit, unless it closes a production. -/
theorem Derived.step_eq_error {r : Reading} {rules : List Rule} {us : List TokenKind} (h : r.Derived rules us)
    {token : Token} {e : ParseError} (failed : r.step token = .error e) :
    e = .unexpected r.expected token.origin token.offset ∨ ∃ rule : Rule, rule.kinds = us ++ [token.kind] := by
  obtain ⟨done, stage⟩ := r
  obtain ⟨kind, position, origin⟩ := token
  have part := h.stage
  cases stage with
  | outside =>
    left
    cases kind with
    | name text => cases failed
    | _ =>
      cases failed
      rfl
  | named name offset =>
    left
    cases kind with
    | equals => cases failed
    | _ =>
      cases failed
      rfl
  | opened name offset =>
    cases part
    by_cases period : kind = .period
    · subst period
      exact .inr ⟨⟨name, none⟩, rfl⟩
    · rw [step_opened rfl period] at failed
      exact .inl (extend_eq_error failed)
  | inside name offset draft =>
    obtain ⟨vs, derived, rfl⟩ := part
    by_cases period : kind = .period
    · subst period
      simp only [Reading.step] at failed
      split at failed
      · rename_i body finished
        obtain ⟨x, rfl, -⟩ := derived.finish finished
        exact .inr ⟨⟨name, some x⟩, rfl⟩
      · cases failed
        exact .inl rfl
    · rw [step_inside rfl period] at failed
      exact .inl (extend_eq_error failed)

end Reading

/-- Productions, the last of which has the name of exactly one of the others. Its own name stands at the offset. -/
inductive Redefines : List Token → String → Nat → Prop where
  | last {earlier : List Rule} {last : Rule} {whole others : List Token} {first : Token} :
      whole.map (·.kind) = rulesKinds earlier → (first :: others).map (·.kind) = last.kinds →
        (ruleNames earlier).Nodup → (ruleNames earlier).count last.name = 1 →
          Redefines (whole ++ first :: others) last.name first.offset

/-- Where names repeat, there is a first one that does. -/
theorem exists_first_repeated {rules : List Rule} (repeated : ¬ (ruleNames rules).Nodup) :
    ∃ earlier last later, rules = earlier ++ last :: later ∧ (ruleNames earlier).Nodup ∧
      last.name ∈ ruleNames earlier := by
  induction rules using List.reverseRecOn with
  | nil => exact absurd List.nodup_nil repeated
  | append_singleton rules rule ih =>
    by_cases different : (ruleNames rules).Nodup
    · rw [nodup_ruleNames_concat, not_and, not_not] at repeated
      exact ⟨rules, rule, [], rfl, different, repeated different⟩
    · obtain ⟨earlier, last, later, rfl, first⟩ := ih different
      exact ⟨earlier, last, later ++ [rule], by simp, first⟩

namespace Reading

/-- Productions are read whatever they hold, up to the first that repeats a name. -/
theorem take_row {rules : List Rule} {tokens : List Token} (kinds : tokens.map (·.kind) = rulesKinds rules) :
    start.take tokens = .ok ⟨grammarOf rules, .outside⟩ ∨ ∃ name offset row rest,
      start.take tokens = .error (.redefined name offset) ∧ tokens = row ++ rest ∧ Redefines row name offset := by
  by_cases different : (ruleNames rules).Nodup
  · exact .inl (take_rules different (fun rule _ => Grammar.get?_empty rule.name) kinds)
  · right
    obtain ⟨earlier, last, later, rfl, different, repeated⟩ := exists_first_repeated different
    obtain ⟨whole, first, others, rest, rfl, before, here⟩ := exists_rule_tokens kinds
    have taken := (get?_grammarOf_isSome different).mpr repeated
    exact ⟨last.name, first.offset, whole ++ first :: others, rest,
      take_taken different (fun rule _ => Grammar.get?_empty rule.name) taken before here rest, rfl,
      .last before here different (List.count_eq_one_of_mem different repeated)⟩

theorem outside_of_row {rules : List Rule} {tokens : List Token} (kinds : tokens.map (·.kind) = rulesKinds rules)
    {r : Reading} (taken : start.take tokens = .ok r) : r.stage = .outside := by
  rcases take_row kinds with success | ⟨_, _, _, _, redefined, -⟩
  · rw [taken] at success
    cases success
    rfl
  · rw [taken] at redefined
    cases redefined

/-- Nothing but a name can be wrong with a row of productions. -/
theorem redefines_of_row {rules : List Rule} {tokens : List Token} (kinds : tokens.map (·.kind) = rulesKinds rules)
    {e : ParseError} (failed : start.take tokens = .error e) :
    ∃ name offset row rest, e = .redefined name offset ∧ tokens = row ++ rest ∧ Redefines row name offset := by
  rcases take_row kinds with success | ⟨name, offset, row, rest, redefined, split, redefines⟩
  · rw [failed] at success
    cases success
  · rw [failed] at redefined
    exact ⟨name, offset, row, rest, Except.error.inj redefined, split, redefines⟩

theorem take_of_step_error {r r' : Reading} {tokens : List Token} (taken : r.take tokens = .ok r') {token : Token}
    {e : ParseError} (failed : r'.step token = .error e) (further : List Token) :
    r.take (tokens ++ token :: further) = .error e := by
  rw [take_append, taken, Except.bind, take_cons, failed]
  rfl

/-- After a token that does not fit nothing makes a row of productions, because a name would be to blame then. -/
theorem not_viable_of_misfit {r : Reading} {tokens : List Token} (taken : start.take tokens = .ok r) {token : Token}
    {expected : Expected} {found : String} {offset : Nat}
    (failed : r.step token = .error (.unexpected expected found offset)) :
    ¬ Viable ((tokens ++ [token]).map (·.kind)) := by
  rintro ⟨rules, more, whole⟩
  let further : List Token := more.map fun kind => ⟨kind, 0, ""⟩
  have kinds : (tokens ++ token :: further).map (·.kind) = rulesKinds rules := by
    rw [← whole]
    simp [further, Function.comp_def]
  obtain ⟨_, _, _, _, misfit, -⟩ := redefines_of_row kinds (take_of_step_error taken failed further)
  cases misfit

theorem finish_eq_error {r : Reading} {e : ParseError} (failed : r.finish = .error e) :
    e = .unexpectedEnd r.expected ∧ r.stage ≠ .outside := by
  unfold finish at failed
  split at failed
  · cases failed
  · rename_i inside
    cases failed
    exact ⟨rfl, inside⟩

end Reading

/-- The tokens with which a text begins, and the items that follow them. -/
structure Begins (text : String) (tokens : List Token) (rest : List Item) : Prop where
  items_eq : Source.items text = tokens.map .ok ++ rest
  stand : ∀ token ∈ tokens, token.StandsIn text

theorem begins_of_items {text : String} {tokens : List Token} {rest : List Item}
    (items : Source.items text = tokens.map .ok ++ rest) : Begins text tokens rest := by
  refine ⟨items, fun token member => Source.token_standsIn ?_⟩
  rw [items]
  exact List.mem_append_left rest (List.mem_map.mpr ⟨token, member, rfl⟩)

/-- What an error says of the text that is refused with it: the tokens before the place it tells can be completed to
    productions, and those up to that place cannot, or must not. -/
def Earliest (text : String) : ParseError → Prop
  | .unexpected _ found offset => ∃ tokens token rest, Begins text (tokens ++ [token]) rest ∧
      token.origin = found ∧ token.offset = offset ∧ Viable (tokens.map (·.kind)) ∧
        ¬ Viable ((tokens ++ [token]).map (·.kind))
  | .unexpectedEnd _ => ∃ tokens, Begins text tokens [] ∧ Viable (tokens.map (·.kind)) ∧
      ∀ rules, tokens.map (·.kind) ≠ rulesKinds rules
  | .invalidToken e => ∃ tokens rest, Begins text tokens (.error e :: rest) ∧ Viable (tokens.map (·.kind))
  | .redefined name offset => ∃ tokens rest, Begins text tokens rest ∧ Redefines tokens name offset

namespace Grammar

/-- A text is refused at the earliest point at which it can be. -/
theorem refused_earliest {text : String} {e : ParseError} (refused : ofText text = .error e) : Earliest text e := by
  obtain ⟨tokens, rest, r, items, taken, ends⟩ := Reading.start.run_ends (Source.items text)
  obtain ⟨rules, us, derived, same⟩ := Reading.start_derived.take taken
  have kinds : tokens.map (·.kind) = rulesKinds rules ++ us := same.symm
  have viable : Viable (tokens.map (·.kind)) := by
    rw [kinds]
    exact derived.viable
  rw [ofText] at refused
  rw [refused] at ends
  cases ends with
  | noToken => exact ⟨tokens, _, begins_of_items items, viable⟩
  | finished failed =>
    obtain ⟨rfl, inside⟩ := Reading.finish_eq_error failed
    exact ⟨tokens, begins_of_items items, viable, fun _ row => inside (Reading.outside_of_row row taken)⟩
  | @misplaced token _ rest failed =>
    have all : Source.items text = (tokens ++ [token]).map .ok ++ rest := by simp [items]
    rcases derived.step_eq_error failed with rfl | ⟨rule, last⟩
    · exact ⟨tokens, token, rest, begins_of_items all, rfl, rfl, viable, Reading.not_viable_of_misfit taken failed⟩
    · -- The token completes a row of productions, so it is the name that is refused.
      have row : (tokens ++ [token]).map (·.kind) = rulesKinds (rules ++ [rule]) := by
        simp [kinds, rulesKinds, last]
      obtain ⟨name, offset, part, others, rfl, split, redefines⟩ :=
        Reading.redefines_of_row row (Reading.take_of_step_error taken failed [])
      rw [split, List.map_append, List.append_assoc] at all
      exact ⟨part, _, begins_of_items all, redefines⟩

/-- An alternative is missing, before a bracket that could close one. -/
def missingAlternative : String := "a = x (\x60é\x60 | ) ."

theorem missingAlternative_refused : ofText missingAlternative = .error (.unexpected .term ")" 14) ∧
    Earliest missingAlternative (.unexpected .term ")" 14) := by
  have refused : ofText missingAlternative = .error (.unexpected .term ")" 14) := by with_unfolding_all rfl
  exact ⟨refused, refused_earliest refused⟩

end Grammar

end RegularGrammar
