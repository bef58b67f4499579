import RegularGrammar.Grammar.Reading
import RegularGrammar.Proofs.Expr.Draft
import RegularGrammar.Proofs.Text.Separator

/-!
# Reading a text and deriving it

The texts that are read as grammars are those whose tokens derive from productions
with different names, and the grammar holds the expressions of that derivation.
-/

namespace RegularGrammar

open Source (Token TokenKind Item LexicalError)
open Phrase (Rule bodyKinds rulesKinds)

/-! ## One derivation -/

@[simp]
theorem period_not_mem_bodyKinds (body : Option Phrase.Expression) : .period ∉ bodyKinds body := by
  cases body with
  | none => exact List.not_mem_nil
  | some e => exact period_not_mem_kinds e

theorem kinds_ne_nil (e : Phrase.Expression) : e.kinds ≠ [] := by
  intro none
  obtain ⟨d, read, finished⟩ := Draft.read_body e
  rw [none] at read
  cases read
  cases finished

theorem bodyKinds_inj {x y : Option Phrase.Expression} (same : bodyKinds x = bodyKinds y) : x = y := by
  cases x with
  | none =>
    cases y with
    | none => rfl
    | some f => exact absurd same.symm (kinds_ne_nil f)
  | some e =>
    cases y with
    | none => exact absurd same (kinds_ne_nil e)
    | some f => rw [expression_kinds_inj same]

/-- The tokens of productions determine their derivation. -/
theorem rulesKinds_inj {ps qs : List Rule} (same : rulesKinds ps = rulesKinds qs) : ps = qs := by
  induction ps generalizing qs with
  | nil =>
    cases qs with
    | nil => rfl
    | cons q rest => cases same
  | cons p others ih =>
    cases qs with
    | nil => cases same
    | cons q rest =>
      simp only [rulesKinds, List.flatMap_cons, Rule.kinds, List.cons_append, List.append_assoc, List.nil_append,
        List.cons.injEq, TokenKind.name.injEq, true_and] at same
      obtain ⟨name, body⟩ := same
      obtain ⟨body, after⟩ :=
        append_separator_inj (period_not_mem_bodyKinds p.body) (period_not_mem_bodyKinds q.body) body
      obtain ⟨pName, pBody⟩ := p
      cases name
      cases bodyKinds_inj body
      rw [ih after]

@[simp]
theorem rulesKinds_append (ps qs : List Rule) : rulesKinds (ps ++ qs) = rulesKinds ps ++ rulesKinds qs :=
  List.flatMap_append

/-- Where the tokens of some productions stand, there are those of each one. -/
theorem exists_rule_tokens {earlier later : List Rule} {rule : Rule} {tokens : List Token}
    (kinds : tokens.map (·.kind) = rulesKinds (earlier ++ rule :: later)) :
    ∃ whole first others rest, tokens = whole ++ first :: others ++ rest ∧
      whole.map (·.kind) = rulesKinds earlier ∧ (first :: others).map (·.kind) = rule.kinds := by
  rw [rulesKinds_append, List.map_eq_append_iff] at kinds
  obtain ⟨whole, _, rfl, before, after⟩ := kinds
  rw [rulesKinds, List.flatMap_cons, List.map_eq_append_iff] at after
  obtain ⟨part, rest, rfl, here, -⟩ := after
  obtain ⟨first, others, rfl, -, -⟩ := List.map_eq_cons_iff.mp here
  exact ⟨whole, first, others, rest, by simp, before, here⟩

/-! ## Grammars of productions -/

namespace Grammar

/-- Productions with different names are found under them. -/
theorem get?_foldl_insert {ps : List Production} (different : (ps.map Production.name).Nodup) (g : Grammar)
    (name : String) : (ps.foldl insert g).get? name = (ps.find? (·.name = name)).or (g.get? name) := by
  induction ps generalizing g with
  | nil => rfl
  | cons p rest ih =>
    rw [List.map_cons, List.nodup_cons] at different
    obtain ⟨notRest, different⟩ := different
    rw [List.foldl_cons, ih different, get?_insert, List.find?_cons]
    by_cases same : p.name = name
    · have none : rest.find? (·.name = name) = none := by
        rw [List.find?_eq_none]
        intro q member found
        exact notRest (List.mem_map.mpr ⟨q, member, by rw [same]; exact of_decide_eq_true found⟩)
      simp [same, none]
    · simp [same]

theorem get?_ofList {ps : List Production} (different : (ps.map Production.name).Nodup) (name : String) :
    (ofList ps).get? name = ps.find? (·.name = name) := by
  simp [ofList, get?_foldl_insert different]

end Grammar

/-- The grammar of a derivation. -/
def grammarOf (rules : List Rule) : Grammar := .ofList (rules.map Rule.production)

def ruleNames (rules : List Rule) : List String := rules.map Rule.name

@[simp]
theorem map_production_name (rules : List Rule) :
    (rules.map Rule.production).map Production.name = ruleNames rules := by
  rw [List.map_map]
  rfl

@[simp]
theorem nodup_ruleNames_concat {rules : List Rule} {rule : Rule} :
    (ruleNames (rules ++ [rule])).Nodup ↔ (ruleNames rules).Nodup ∧ rule.name ∉ ruleNames rules := by
  simp [ruleNames, List.nodup_append]

theorem get?_grammarOf {rules : List Rule} (different : (ruleNames rules).Nodup) (name : String) :
    (grammarOf rules).get? name = (rules.find? (·.name = name)).map Rule.production := by
  rw [← map_production_name] at different
  rw [grammarOf, Grammar.get?_ofList different, List.find?_map]
  rfl

theorem get?_grammarOf_isSome {rules : List Rule} (different : (ruleNames rules).Nodup) {name : String} :
    ((grammarOf rules).get? name).isSome = true ↔ name ∈ ruleNames rules := by
  rw [get?_grammarOf different, Option.isSome_map, List.find?_isSome]
  simp [ruleNames]

@[simp]
theorem grammarOf_concat (rules : List Rule) (rule : Rule) :
    grammarOf (rules ++ [rule]) = (grammarOf rules).insert rule.production := by
  rw [grammarOf, Grammar.ofList, List.map_append, List.foldl_append]
  rfl

/-- There is no error among the items, and their tokens are of the given kinds. -/
def IsTokens (items : List Item) (ks : List TokenKind) : Prop :=
  ∃ tokens : List Token, items = tokens.map .ok ∧ tokens.map (·.kind) = ks

theorem isTokens_nil : IsTokens [] [] := ⟨[], rfl, rfl⟩

theorem IsTokens.cons {items : List Item} {ks : List TokenKind} (h : IsTokens items ks) (token : Token) :
    IsTokens (.ok token :: items) (token.kind :: ks) := by
  obtain ⟨tokens, rfl, rfl⟩ := h
  exact ⟨token :: tokens, rfl, rfl⟩

/-- A text has no lexical errors, and its tokens derive from productions. -/
def Derives (text : String) (rules : List Rule) : Prop := IsTokens (Source.items text) (rulesKinds rules)

/-! ## From readings to derivations -/

/-- The tokens derive what has been read of a production. -/
def Stage.Derived : Stage → List TokenKind → Prop
  | .outside, ks => ks = []
  | .named name _, ks => ks = [.name name]
  | .opened name _, ks => ks = [.name name, .equals]
  | .inside name _ draft, ks => ∃ us, draft.Derived us ∧ ks = .name name :: .equals :: us

namespace Reading

/-- The tokens derive what has been read: productions with different names, and a part of one more. -/
structure Derived (r : Reading) (rules : List Rule) (us : List TokenKind) : Prop where
  different : (ruleNames rules).Nodup
  done_eq : r.done = grammarOf rules
  stage : r.stage.Derived us

theorem start_derived : start.Derived [] [] := ⟨List.nodup_nil, rfl, rfl⟩

theorem extend_eq_ok_iff {r r' : Reading} {name : String} {offset : Nat} {draft : Draft} {token : Token} :
    r.extend name offset draft token = .ok r' ↔
      ∃ draft', draft.step token.kind = some draft' ∧ r' = ⟨r.done, .inside name offset draft'⟩ := by
  unfold extend
  split
  · rename_i draft' stepped
    simp [stepped, eq_comm]
  · rename_i failed
    simp [failed, misfit]

theorem close_eq_ok_iff {r r' : Reading} {name : String} {offset : Nat} {body : Expr} :
    r.close name offset body = .ok r' ↔
      (r.done.get? name).isSome = false ∧ r' = ⟨r.done.insert ⟨name, body⟩, .outside⟩ := by
  unfold close
  split
  · rename_i taken
    simp [taken]
  · rename_i free
    simp [free, eq_comm]

/-- A closed production joins those before it. -/
theorem Derived.close {r r' : Reading} {rules : List Rule} {us : List TokenKind} (h : r.Derived rules us)
    (rule : Rule) {offset : Nat} (closed : r.close rule.name offset rule.expr = .ok r') :
    r'.Derived (rules ++ [rule]) [] := by
  obtain ⟨free, rfl⟩ := close_eq_ok_iff.mp closed
  rw [h.done_eq] at free
  have other : rule.name ∉ ruleNames rules := by simp [← get?_grammarOf_isSome h.different, free]
  refine ⟨nodup_ruleNames_concat.mpr ⟨h.different, other⟩, ?_, rfl⟩
  rw [grammarOf_concat, ← h.done_eq]
  rfl

theorem step_opened {r : Reading} {name : String} {offset : Nat} (opened : r.stage = .opened name offset)
    {token : Token} (other : token.kind ≠ .period) : r.step token = r.extend name offset .start token := by
  unfold step
  rw [opened]
  split <;> simp_all

theorem step_inside {r : Reading} {name : String} {offset : Nat} {draft : Draft}
    (inside : r.stage = .inside name offset draft) {token : Token} (other : token.kind ≠ .period) :
    r.step token = r.extend name offset draft token := by
  unfold step
  rw [inside]
  split <;> simp_all

/-- One more token derives one more part of a production, or the end of one. -/
theorem Derived.step {r r' : Reading} {rules : List Rule} {us : List TokenKind} (h : r.Derived rules us)
    {token : Token} (stepped : r.step token = .ok r') : ∃ rules' us', r'.Derived rules' us' ∧
      rulesKinds rules' ++ us' = rulesKinds rules ++ us ++ [token.kind] := by
  obtain ⟨done, stage⟩ := r
  obtain ⟨kind, position, origin⟩ := token
  have part := h.stage
  cases stage with
  | outside =>
    cases part
    cases kind with
    | name text =>
      cases stepped
      exact ⟨rules, [.name text], ⟨h.different, h.done_eq, rfl⟩, by simp⟩
    | _ => cases stepped
  | named name offset =>
    cases part
    cases kind with
    | equals =>
      cases stepped
      exact ⟨rules, [.name name, .equals], ⟨h.different, h.done_eq, rfl⟩, by simp⟩
    | _ => cases stepped
  | opened name offset =>
    cases part
    by_cases period : kind = .period
    · subst period
      refine ⟨rules ++ [⟨name, none⟩], [], h.close ⟨name, none⟩ stepped, ?_⟩
      simp [rulesKinds, Rule.kinds, bodyKinds]
    · rw [step_opened rfl period] at stepped
      obtain ⟨draft, taken, rfl⟩ := extend_eq_ok_iff.mp stepped
      refine ⟨rules, [.name name, .equals, kind], ⟨h.different, h.done_eq, [kind], ?_, rfl⟩, by simp⟩
      exact Draft.start_derived.step taken
  | inside name offset draft =>
    obtain ⟨vs, derived, rfl⟩ := part
    by_cases period : kind = .period
    · subst period
      simp only [Reading.step] at stepped
      split at stepped
      · rename_i e finished
        obtain ⟨x, rfl, rfl⟩ := derived.finish finished
        refine ⟨rules ++ [⟨name, some x⟩], [], h.close ⟨name, some x⟩ stepped, ?_⟩
        simp [rulesKinds, Rule.kinds, bodyKinds]
      · cases stepped
    · rw [step_inside rfl period] at stepped
      obtain ⟨draft', taken, rfl⟩ := extend_eq_ok_iff.mp stepped
      exact ⟨rules, .name name :: .equals :: (vs ++ [kind]),
        ⟨h.different, h.done_eq, vs ++ [kind], derived.step taken, rfl⟩, by simp⟩

/-- The reading with more tokens. -/
def take (r : Reading) (tokens : List Token) : Except ParseError Reading := tokens.foldlM step r

@[simp]
theorem take_cons {r : Reading} {token : Token} {tokens : List Token} :
    r.take (token :: tokens) = (r.step token).bind (·.take tokens) := rfl

@[simp]
theorem take_append {r : Reading} {ts us : List Token} : r.take (ts ++ us) = (r.take ts).bind (·.take us) :=
  List.foldlM_append

/-- What a reading comes to, and at which items. -/
inductive Ends (r : Reading) : List Item → Except ParseError Grammar → Prop where
  | finished {result : Except ParseError Grammar} : r.finish = result → Ends r [] result
  | noToken {e : LexicalError} {rest : List Item} : Ends r (.error e :: rest) (.error (.invalidToken e))
  | misplaced {token : Token} {e : ParseError} {rest : List Item} : r.step token = .error e →
      Ends r (.ok token :: rest) (.error e)

/-- A reading takes tokens one after the other, up to the items at which it ends. -/
theorem run_ends (r : Reading) (items : List Item) :
    ∃ tokens rest r', items = tokens.map .ok ++ rest ∧ r.take tokens = .ok r' ∧ r'.Ends rest (r.run items) := by
  induction items generalizing r with
  | nil => exact ⟨[], [], r, rfl, rfl, .finished rfl⟩
  | cons item items ih =>
    cases item with
    | error e => exact ⟨[], _, r, rfl, rfl, .noToken⟩
    | ok token =>
      rw [run]
      cases stepped : r.step token with
      | error e => exact ⟨[], _, r, rfl, rfl, .misplaced stepped⟩
      | ok next =>
        obtain ⟨tokens, rest, r', rfl, taken, ends⟩ := ih next
        refine ⟨token :: tokens, rest, r', rfl, ?_, ends⟩
        rw [take_cons, stepped]
        exact taken

theorem Derived.take {r r' : Reading} {rules : List Rule} {us : List TokenKind} (h : r.Derived rules us)
    {tokens : List Token} (taken : r.take tokens = .ok r') : ∃ rules' us', r'.Derived rules' us' ∧
      rulesKinds rules' ++ us' = rulesKinds rules ++ us ++ tokens.map (·.kind) := by
  induction tokens generalizing r rules us with
  | nil =>
    cases taken
    exact ⟨rules, us, h, by simp⟩
  | cons token rest ih =>
    rw [take_cons] at taken
    cases stepped : r.step token with
    | error e =>
      rw [stepped] at taken
      cases taken
    | ok next =>
      rw [stepped] at taken
      obtain ⟨rules', us', derived, same⟩ := h.step stepped
      obtain ⟨rules'', us'', derived', same'⟩ := ih derived taken
      refine ⟨rules'', us'', derived', ?_⟩
      rw [same', same]
      simp

theorem finish_eq_ok_iff {r : Reading} {g : Grammar} : r.finish = .ok g ↔ r = ⟨g, .outside⟩ := by
  obtain ⟨done, stage⟩ := r
  cases stage <;> simp [finish]

/-- The tokens of a text that is read derive from what its grammar is made of. -/
theorem Derived.run {r : Reading} {rules : List Rule} {us : List TokenKind} (h : r.Derived rules us)
    {items : List Item} {g : Grammar} (read : r.run items = .ok g) :
    ∃ ks rules', IsTokens items ks ∧ rulesKinds rules' = rulesKinds rules ++ us ++ ks ∧
      (ruleNames rules').Nodup ∧ g = grammarOf rules' := by
  obtain ⟨tokens, rest, r', split, taken, ends⟩ := run_ends r items
  obtain ⟨rules', us', derived, same⟩ := h.take taken
  rw [read] at ends
  cases ends with
  | finished finished =>
    cases finish_eq_ok_iff.mp finished
    cases derived.stage
    rw [List.append_nil] at split same
    exact ⟨tokens.map (·.kind), rules', ⟨tokens, split, rfl⟩, same, derived.different, derived.done_eq⟩

/-! ## From derivations to readings -/

theorem run_append (r : Reading) (tokens : List Token) (items : List Item) :
    r.run (tokens.map .ok ++ items) = (r.take tokens).bind (·.run items) := by
  induction tokens generalizing r with
  | nil => rfl
  | cons token rest ih =>
    rw [List.map_cons, List.cons_append, run, take_cons]
    cases r.step token with
    | error e => rfl
    | ok next => exact ih next

@[simp]
theorem take_singleton {r : Reading} {token : Token} : r.take [token] = r.step token := by
  rw [take_cons]
  cases r.step token <;> rfl

/-- The tokens of a body, which may be its first, are taken by its draft. -/
theorem take_draft {r : Reading} {name : String} {offset : Nat} {draft draft' : Draft}
    (steps : ∀ token : Token, token.kind ≠ .period → r.step token = r.extend name offset draft token)
    {token : Token} {tokens : List Token} (read : draft.read (token.kind :: tokens.map (·.kind)) = some draft') :
    r.take (token :: tokens) = .ok ⟨r.done, .inside name offset draft'⟩ := by
  rw [Draft.read_cons, Option.bind_eq_some_iff] at read
  obtain ⟨next, stepped, others⟩ := read
  have other : token.kind ≠ .period := by
    intro period
    rw [period, Draft.step_period] at stepped
    cases stepped
  rw [take_cons, steps token other, extend_eq_ok_iff.mpr ⟨next, stepped, rfl⟩, Except.bind]
  cases tokens with
  | nil =>
    cases others
    rfl
  | cons token' rest => exact take_draft (fun _ => step_inside rfl) others
termination_by tokens.length

/-- A body is closed at its period, be it missing or not. -/
theorem take_body {done : Grammar} {name : String} {offset : Nat} (body : Option Phrase.Expression)
    {tokens : List Token} (kinds : tokens.map (·.kind) = bodyKinds body) {period : Token} (isPeriod : period.kind = .period) :
    take ⟨done, .opened name offset⟩ (tokens ++ [period]) =
      (close ⟨done, .opened name offset⟩ name offset (Rule.expr ⟨name, body⟩)) := by
  obtain ⟨_, position, origin⟩ := period
  cases isPeriod
  cases body with
  | none =>
    cases List.map_eq_nil_iff.mp kinds
    rw [List.nil_append, take_singleton]
    rfl
  | some e =>
    obtain ⟨draft, read, finished⟩ := Draft.read_body e
    cases tokens with
    | nil => exact absurd kinds.symm (kinds_ne_nil e)
    | cons token rest =>
      have inside : take ⟨done, .opened name offset⟩ (token :: rest) = .ok ⟨done, .inside name offset draft⟩ := by
        apply take_draft fun _ => step_opened rfl
        rw [← List.map_cons, kinds]
        exact read
      rw [take_append, inside, Except.bind, take_singleton]
      simp only [step, finished]
      rfl

theorem take_name_equals {done : Grammar} {name : String} {first second : Token} {tokens : List Token}
    (isName : first.kind = .name name) (isEquals : second.kind = .equals) :
    take ⟨done, .outside⟩ (first :: second :: tokens) = take ⟨done, .opened name first.offset⟩ tokens := by
  obtain ⟨_, offset, origin⟩ := first
  obtain ⟨_, offset', origin'⟩ := second
  cases isName
  cases isEquals
  rfl

/-- Whether a production may be closed is all that is left to ask at its period. -/
theorem take_rule_eq_close (done : Grammar) {rule : Rule} {tokens : List Token}
    (kinds : tokens.map (·.kind) = rule.kinds) : ∃ first others, tokens = first :: others ∧
      take ⟨done, .outside⟩ tokens = close ⟨done, .opened rule.name first.offset⟩ rule.name first.offset rule.expr := by
  obtain ⟨first, _, rfl, isName, afterName⟩ := List.map_eq_cons_iff.mp kinds
  obtain ⟨second, _, rfl, isEquals, afterEquals⟩ := List.map_eq_cons_iff.mp afterName
  obtain ⟨body, _, rfl, inside, afterBody⟩ := List.map_eq_append_iff.mp afterEquals
  obtain ⟨period, _, rfl, isPeriod, afterPeriod⟩ := List.map_eq_cons_iff.mp afterBody
  cases List.map_eq_nil_iff.mp afterPeriod
  refine ⟨first, _, rfl, ?_⟩
  rw [take_name_equals isName isEquals]
  exact take_body rule.body inside isPeriod

theorem take_rule {done : Grammar} {rule : Rule} (free : done.get? rule.name = none) {tokens : List Token}
    (kinds : tokens.map (·.kind) = rule.kinds) :
    take ⟨done, .outside⟩ tokens = .ok ⟨done.insert rule.production, .outside⟩ := by
  obtain ⟨first, others, -, taken⟩ := take_rule_eq_close done kinds
  rw [taken, close_eq_ok_iff]
  exact ⟨by rw [free]; rfl, rfl⟩

/-- Productions with new names are read one after the other. -/
theorem take_rules {rules : List Rule} {done : Grammar} (different : (ruleNames rules).Nodup)
    (free : ∀ rule ∈ rules, done.get? rule.name = none) {tokens : List Token}
    (kinds : tokens.map (·.kind) = rulesKinds rules) :
    take ⟨done, .outside⟩ tokens = .ok ⟨(rules.map Rule.production).foldl Grammar.insert done, .outside⟩ := by
  induction rules generalizing done tokens with
  | nil =>
    cases List.map_eq_nil_iff.mp kinds
    rfl
  | cons rule rest ih =>
    rw [rulesKinds, List.flatMap_cons, List.map_eq_append_iff] at kinds
    obtain ⟨here, later, rfl, ruleKinds, others⟩ := kinds
    rw [ruleNames, List.map_cons, List.nodup_cons] at different
    have ⟨freeHere, freeLater⟩ := List.forall_mem_cons.mp free
    rw [take_append, take_rule freeHere ruleKinds]
    refine ih different.2 (fun other member => ?_) others
    rw [Grammar.get?_insert, if_neg, freeLater other member]
    intro same
    exact different.1 (List.mem_map.mpr ⟨other, member, same.symm⟩)

/-- The first production whose name is taken is refused at its name. -/
theorem take_taken {earlier : List Rule} {rule : Rule} {done : Grammar} (different : (ruleNames earlier).Nodup)
    (free : ∀ other ∈ earlier, done.get? other.name = none)
    (taken : (((earlier.map Rule.production).foldl Grammar.insert done).get? rule.name).isSome)
    {whole others : List Token} {first : Token} (before : whole.map (·.kind) = rulesKinds earlier)
    (here : (first :: others).map (·.kind) = rule.kinds) (rest : List Token) :
    take ⟨done, .outside⟩ (whole ++ first :: others ++ rest) = .error (.redefined rule.name first.offset) := by
  obtain ⟨_, _, same, closed⟩ := take_rule_eq_close ((earlier.map Rule.production).foldl Grammar.insert done) here
  cases same
  rw [take_append, take_append, take_rules different free before, Except.bind, closed, close, if_pos taken]
  rfl

end Reading

/-! ## Grammar texts -/

namespace Grammar

theorem ofText_of_derives {text : String} {rules : List Rule} (derives : Derives text rules)
    (different : (ruleNames rules).Nodup) : ofText text = .ok (grammarOf rules) := by
  obtain ⟨tokens, items, kinds⟩ := derives
  have taken := Reading.take_rules different (fun rule _ => get?_empty rule.name) kinds
  have read := Reading.run_append .start tokens []
  rw [Reading.start, taken, List.append_nil, ← items] at read
  exact read

theorem derives_of_ofText {text : String} {g : Grammar} (read : ofText text = .ok g) :
    ∃ rules, Derives text rules ∧ (ruleNames rules).Nodup ∧ g = grammarOf rules := by
  obtain ⟨ks, rules, tokens, kinds, different, same⟩ := Reading.start_derived.run read
  rw [show ks = rulesKinds rules by simpa [rulesKinds] using kinds.symm] at tokens
  exact ⟨rules, tokens, different, same⟩

theorem derives_unique {text : String} {ps qs : List Rule} (left : Derives text ps) (right : Derives text qs) :
    ps = qs := by
  obtain ⟨ts, items, kinds⟩ := left
  obtain ⟨us, items', kinds'⟩ := right
  rw [items, List.map_inj_right (fun _ _ => Except.ok.inj)] at items'
  exact rulesKinds_inj (by rw [← kinds, ← kinds', items'])

/-- A text is a grammar if its tokens derive from productions with different names. They derive in one
    way only, and each name has the expression of its production in that derivation. -/
theorem ofText_ok_iff (text : String) :
    ((∃ g, ofText text = .ok g) ↔ ∃ rules, Derives text rules ∧ (rules.map Rule.name).Nodup) ∧
      (∀ rules rules', Derives text rules → Derives text rules' → rules = rules') ∧
        ∀ g rules, ofText text = .ok g → Derives text rules →
          ∀ name, g.get? name = (rules.find? (·.name = name)).map Rule.production := by
  refine ⟨⟨?_, ?_⟩, fun rules rules' => derives_unique, ?_⟩
  · rintro ⟨g, read⟩
    obtain ⟨rules, derives, different, -⟩ := derives_of_ofText read
    exact ⟨rules, derives, different⟩
  · rintro ⟨rules, derives, different⟩
    exact ⟨grammarOf rules, ofText_of_derives derives different⟩
  · intro g rules read derives name
    obtain ⟨rules', derives', different, rfl⟩ := derives_of_ofText read
    cases derives_unique derives derives'
    exact get?_grammarOf different name

/-- Items between commas, in two productions. -/
def listText : String := "list = item \x7b \x60,\x60 item \x7d .\nitem = ."

def listRules : List Rule :=
  [⟨"list", some (.last (.more (.name "item")
      (.last (.enclosed .curly (.last (.more (.literal ",") (.last (.name "item"))))))))⟩,
    ⟨"item", none⟩]

theorem ofText_ok_list : Derives listText listRules ∧ ∃ g, ofText listText = .ok g ∧
    g.get? "list" = some ⟨"list", .sequence [.name "item", .repetition (.sequence [.literal ",", .name "item"])]⟩ ∧
      g.get? "item" = some ⟨"item", .sequence []⟩ := by
  have derives : Derives listText listRules :=
    ⟨(Source.items listText).filterMap Except.toOption, by with_unfolding_all rfl, by with_unfolding_all rfl⟩
  obtain ⟨success, -, found⟩ := ofText_ok_iff listText
  obtain ⟨g, read⟩ := success.mpr ⟨listRules, derives, by decide⟩
  refine ⟨derives, g, read, ?_, ?_⟩
  · rw [found g listRules read derives]
    rfl
  · rw [found g listRules read derives]
    rfl

end Grammar

end RegularGrammar
