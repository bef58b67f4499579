import RegularGrammar.Proofs.Grammar.Phrase
import RegularGrammar.Proofs.Source.Words
import RegularGrammar.Proofs.Text.Separator

/-!
# Well-shaped grammars

Not every expression has a notation: a sequence of one term is written like the
term, and alternatives inside of a sequence need brackets. The well-shaped
expressions are those that a derivation stands for, and their tokens are the ones
that it derives.
-/

namespace RegularGrammar

open Source (TokenKind IsIdentifier)
open Phrase (Term Alternative Expression)

/-- The places in the notation that an expression may take. -/
inductive Shape where
  | term
  | sequence
  | expression

/-- The expressions that have a notation at some place: no sequence and no alternative of fewer than two
    items, no alternative among the items of a sequence, and neither of them under a `not`. -/
inductive Expr.Shaped : Shape → Expr → Prop where
  | range (first last : String) : Shaped .term (.range first last)
  | literal (text : String) : Shaped .term (.literal text)
  | name {text : String} : IsIdentifier text → Shaped .term (.name text)
  | complement {body : Expr} : Shaped .term body → Shaped .term (.complement body)
  | group {body : Expr} : Shaped .expression body → Shaped .term (.group body)
  | option {body : Expr} : Shaped .expression body → Shaped .term (.option body)
  | repetition {body : Expr} : Shaped .expression body → Shaped .term (.repetition body)
  | oneTerm {e : Expr} : Shaped .term e → Shaped .sequence e
  | sequence {items : List Expr} : 2 ≤ items.length → (∀ e ∈ items, Shaped .term e) → Shaped .sequence (.sequence items)
  | oneSequence {e : Expr} : Shaped .sequence e → Shaped .expression e
  | alternative {items : List Expr} : 2 ≤ items.length → (∀ e ∈ items, Shaped .sequence e) →
      Shaped .expression (.alternative items)

/-- The name is an identifier, and the body is empty or an expression with a notation. -/
structure Production.WellShaped (p : Production) : Prop where
  name : IsIdentifier p.name
  body : p.body = .sequence [] ∨ p.body.Shaped .expression

def Grammar.WellShaped (g : Grammar) : Prop := ∀ p ∈ g.productions, p.WellShaped

mutual

/-- The tokens of an expression as they are written. -/
def Expr.kinds : Expr → List TokenKind
  | .range first last => [.literal first, .ellipsis, .literal last]
  | .literal text => [.literal text]
  | .sequence items => (kindsOfEach items).flatten
  | .alternative items => List.intercalate [.pipe] (kindsOfEach items)
  | .repetition body => .opening .curly :: kinds body ++ [.closing .curly]
  | .option body => .opening .square :: kinds body ++ [.closing .square]
  | .group body => .opening .round :: kinds body ++ [.closing .round]
  | .name text => [.name text]
  | .complement body => .not :: kinds body

def Expr.kindsOfEach : List Expr → List (List TokenKind)
  | [] => []
  | e :: rest => kinds e :: kindsOfEach rest

end

@[simp]
theorem Expr.kindsOfEach_eq (items : List Expr) : kindsOfEach items = items.map kinds := by
  induction items with
  | nil => rfl
  | cons e rest ih => rw [kindsOfEach, ih, List.map_cons]

/-- The tokens of a production as they are written. -/
def Production.kinds (p : Production) : List TokenKind := .name p.name :: .equals :: p.body.kinds ++ [.period]

/-- The names among tokens are identifiers. -/
def Named (ks : List TokenKind) : Prop := ∀ text, .name text ∈ ks → IsIdentifier text

theorem named_nil : Named [] := fun _ member => nomatch member

theorem named_cons {k : TokenKind} {ks : List TokenKind} (first : ∀ text, k = .name text → IsIdentifier text)
    (others : Named ks) : Named (k :: ks) := by
  intro text member
  rcases List.mem_cons.mp member with same | later
  · exact first text same.symm
  · exact others text later

theorem named_append {us vs : List TokenKind} (left : Named us) (right : Named vs) : Named (us ++ vs) := by
  intro text member
  rcases List.mem_append.mp member with before | after
  · exact left text before
  · exact right text after

theorem Named.left {us vs : List TokenKind} (h : Named (us ++ vs)) : Named us :=
  fun text member => h text (List.mem_append_left vs member)

theorem Named.right {us vs : List TokenKind} (h : Named (us ++ vs)) : Named vs :=
  fun text member => h text (List.mem_append_right us member)

theorem Named.tail {k : TokenKind} {ks : List TokenKind} (h : Named (k :: ks)) : Named ks :=
  fun text member => h text (List.mem_cons_of_mem k member)

theorem Expr.shaped_enclose {body : Expr} (h : body.Shaped .expression) (bracket : Bracket) :
    (body.enclose bracket).Shaped .term := by
  cases bracket with
  | round => exact .group h
  | square => exact .option h
  | curly => exact .repetition h

theorem Phrase.Alternative.length_exprs_pos (a : Alternative) : 0 < a.exprs.length :=
  List.length_pos_iff.mpr a.exprs_ne_nil

theorem Phrase.Expression.length_exprs_pos (e : Expression) : 0 < e.exprs.length :=
  List.length_pos_iff.mpr e.exprs_ne_nil

mutual

theorem Phrase.Term.shaped : (t : Term) → Named t.kinds → t.expr.Shaped .term
  | .name text, named => .name (named text (List.mem_singleton_self _))
  | .literal text, _ => .literal text
  | .range first last, _ => .range first last
  | .not body, named => .complement (Term.shaped body named.tail)
  | .enclosed bracket body, named => by
    rw [Term.expr_enclosed]
    exact Expr.shaped_enclose (Expression.shaped body named.tail.left) bracket

theorem Phrase.Alternative.terms_shaped : (a : Alternative) → Named a.kinds → ∀ e ∈ a.exprs, e.Shaped .term
  | .last t, named => List.forall_mem_singleton.mpr (Term.shaped t named)
  | .more t rest, named =>
    List.forall_mem_cons.mpr ⟨Term.shaped t named.left, Alternative.terms_shaped rest named.right⟩

theorem Phrase.Alternative.shaped : (a : Alternative) → Named a.kinds → a.expr.Shaped .sequence
  | .last t, named => .oneTerm (Term.shaped t named)
  | .more t rest, named =>
    .sequence (Nat.succ_le_succ rest.length_exprs_pos)
      (List.forall_mem_cons.mpr ⟨Term.shaped t named.left, Alternative.terms_shaped rest named.right⟩)

theorem Phrase.Expression.sequences_shaped : (e : Expression) → Named e.kinds → ∀ x ∈ e.exprs, x.Shaped .sequence
  | .last a, named => List.forall_mem_singleton.mpr (Alternative.shaped a named)
  | .more a rest, named =>
    List.forall_mem_cons.mpr ⟨Alternative.shaped a named.left, Expression.sequences_shaped rest named.right.tail⟩

theorem Phrase.Expression.shaped : (e : Expression) → Named e.kinds → e.expr.Shaped .expression
  | .last a, named => .oneSequence (Alternative.shaped a named)
  | .more a rest, named =>
    .alternative (Nat.succ_le_succ rest.length_exprs_pos)
      (List.forall_mem_cons.mpr ⟨Alternative.shaped a named.left, Expression.sequences_shaped rest named.right.tail⟩)

end

theorem Phrase.Rule.wellShaped (r : Phrase.Rule) (named : Named r.kinds) : r.production.WellShaped := by
  obtain ⟨name, body⟩ := r
  refine ⟨named name List.mem_cons_self, ?_⟩
  cases body with
  | none => exact .inl rfl
  | some e => exact .inr (e.shaped named.tail.tail.left)

/-- At its place, an expression is what a derivation stands for, and its tokens are those derived. -/
def Expr.Derivable (e : Expr) : Shape → Prop
  | .term => ∃ t : Term, t.expr = e ∧ t.kinds = e.kinds
  | .sequence => ∃ a : Alternative, a.expr = e ∧ a.kinds = e.kinds
  | .expression => ∃ x : Expression, x.expr = e ∧ x.kinds = e.kinds

theorem Expr.derivable_enclose {body : Expr} (h : body.Derivable .expression) (bracket : Bracket) :
    (body.enclose bracket).Derivable .term := by
  obtain ⟨x, rfl, kinds⟩ := h
  refine ⟨.enclosed bracket x, Term.expr_enclosed bracket x, ?_⟩
  cases bracket <;> rw [Term.kinds, kinds, Expr.enclose, Expr.kinds]

theorem Expr.exists_alternative {e : Expr} {items : List Expr} (h : ∀ x ∈ e :: items, x.Derivable .term) :
    ∃ a : Alternative, a.exprs = e :: items ∧ a.kinds = ((e :: items).map Expr.kinds).flatten := by
  induction items generalizing e with
  | nil =>
    obtain ⟨t, rfl, kinds⟩ := h e List.mem_cons_self
    exact ⟨.last t, rfl, by simp [Alternative.kinds, kinds]⟩
  | cons f rest ih =>
    obtain ⟨⟨t, rfl, kinds⟩, others⟩ := List.forall_mem_cons.mp h
    obtain ⟨a, exprs, restKinds⟩ := ih others
    refine ⟨.more t a, by rw [Alternative.exprs, exprs], ?_⟩
    rw [Alternative.kinds, kinds, restKinds]
    rfl

theorem Expr.exists_expression {e : Expr} {items : List Expr} (h : ∀ x ∈ e :: items, x.Derivable .sequence) :
    ∃ x : Expression, x.exprs = e :: items ∧ x.kinds = List.intercalate [.pipe] ((e :: items).map Expr.kinds) := by
  induction items generalizing e with
  | nil =>
    obtain ⟨a, rfl, kinds⟩ := h e List.mem_cons_self
    exact ⟨.last a, rfl, by simp [Expression.kinds, kinds]⟩
  | cons f rest ih =>
    obtain ⟨⟨a, rfl, kinds⟩, others⟩ := List.forall_mem_cons.mp h
    obtain ⟨x, exprs, restKinds⟩ := ih others
    refine ⟨.more a x, by rw [Expression.exprs, exprs], ?_⟩
    rw [Expression.kinds, kinds, restKinds]
    simp [List.intercalate_cons_cons]

theorem Expr.Shaped.derivable {shape : Shape} {e : Expr} (h : e.Shaped shape) : e.Derivable shape := by
  induction h with
  | range first last => exact ⟨.range first last, rfl, rfl⟩
  | literal text => exact ⟨.literal text, rfl, rfl⟩
  | name => exact ⟨.name _, rfl, rfl⟩
  | complement _ ih =>
    obtain ⟨t, rfl, kinds⟩ := ih
    exact ⟨.not t, rfl, by rw [Term.kinds, kinds, Expr.kinds]⟩
  | group _ ih => exact derivable_enclose ih .round
  | option _ ih => exact derivable_enclose ih .square
  | repetition _ ih => exact derivable_enclose ih .curly
  | oneTerm _ ih =>
    obtain ⟨t, rfl, kinds⟩ := ih
    exact ⟨.last t, rfl, kinds⟩
  | @sequence items two _ ih =>
    match items, two with
    | e :: f :: rest, _ =>
      obtain ⟨a, exprs, kinds⟩ := exists_alternative ih
      refine ⟨a, by rw [a.expr_eq, exprs]; rfl, ?_⟩
      simp [kinds, Expr.kinds]
  | oneSequence _ ih =>
    obtain ⟨a, rfl, kinds⟩ := ih
    exact ⟨.last a, rfl, kinds⟩
  | @alternative items two _ ih =>
    match items, two with
    | e :: f :: rest, _ =>
      obtain ⟨x, exprs, kinds⟩ := exists_expression ih
      refine ⟨x, by rw [x.expr_eq, exprs]; rfl, ?_⟩
      simp [kinds, Expr.kinds]

theorem Production.WellShaped.derivable {p : Production} (h : p.WellShaped) :
    ∃ r : Phrase.Rule, r.production = p ∧ r.kinds = p.kinds := by
  obtain ⟨name, body⟩ := p
  rcases h.body with rfl | shaped
  · exact ⟨⟨name, none⟩, rfl, rfl⟩
  · obtain ⟨x, rfl, kinds⟩ := shaped.derivable
    exact ⟨⟨name, some x⟩, rfl, by rw [Phrase.Rule.kinds, Production.kinds, Phrase.bodyKinds, kinds]⟩

theorem exists_rules {ps : List Production} (h : ∀ p ∈ ps, p.WellShaped) :
    ∃ rules : List Phrase.Rule, rules.map Phrase.Rule.production = ps ∧
      Phrase.rulesKinds rules = ps.flatMap Production.kinds := by
  induction ps with
  | nil => exact ⟨[], rfl, rfl⟩
  | cons p rest ih =>
    have ⟨first, others⟩ := List.forall_mem_cons.mp h
    obtain ⟨r, rfl, kinds⟩ := first.derivable
    obtain ⟨rules, rfl, restKinds⟩ := ih others
    refine ⟨r :: rules, rfl, ?_⟩
    rw [Phrase.rulesKinds, List.flatMap_cons, kinds, ← Phrase.rulesKinds, restKinds, List.flatMap_cons]

theorem named_flatten {kss : List (List TokenKind)} (h : ∀ ks ∈ kss, Named ks) : Named kss.flatten := by
  intro text member
  obtain ⟨ks, listed, inside⟩ := List.mem_flatten.mp member
  exact h ks listed text inside

theorem named_intercalate {kss : List (List TokenKind)} (h : ∀ ks ∈ kss, Named ks) :
    Named (List.intercalate [.pipe] kss) := by
  intro text member
  rcases mem_intercalate member with pipe | ⟨ks, listed, inside⟩
  · simp at pipe
  · exact h ks listed text inside

theorem named_enclosed {bracket : Bracket} {ks : List TokenKind} (h : Named ks) :
    Named (.opening bracket :: ks ++ [.closing bracket]) :=
  named_append (named_cons (fun _ same => nomatch same) h) (named_cons (fun _ same => nomatch same) named_nil)

/-- The names in a well-shaped expression are identifiers. -/
theorem Expr.Shaped.named {shape : Shape} {e : Expr} (h : e.Shaped shape) : Named e.kinds := by
  have each {items : List Expr} (h : ∀ e ∈ items, Named e.kinds) : ∀ ks ∈ items.map kinds, Named ks := by
    intro ks listed
    obtain ⟨e, member, rfl⟩ := List.mem_map.mp listed
    exact h e member
  induction h with
  | range first last =>
    intro text member
    simp [kinds] at member
  | literal text =>
    intro name member
    simp [kinds] at member
  | @name text identifier =>
    intro name member
    cases List.mem_singleton.mp member
    exact identifier
  | complement _ ih => exact named_cons (fun _ same => nomatch same) ih
  | group _ ih => exact named_enclosed ih
  | option _ ih => exact named_enclosed ih
  | repetition _ ih => exact named_enclosed ih
  | oneTerm _ ih => exact ih
  | sequence _ _ ih =>
    rw [kinds, kindsOfEach_eq]
    exact named_flatten (each ih)
  | oneSequence _ ih => exact ih
  | alternative _ _ ih =>
    rw [kinds, kindsOfEach_eq]
    exact named_intercalate (each ih)

theorem Production.WellShaped.named {p : Production} (h : p.WellShaped) : Named p.kinds := by
  have body : Named p.body.kinds := by
    rcases h.body with empty | shaped
    · rw [empty]
      exact named_nil
    · exact shaped.named
  refine named_cons ?_ (named_append (named_cons (fun _ same => nomatch same) body) ?_)
  · rintro text ⟨⟩
    exact h.name
  · exact named_cons (fun _ same => nomatch same) named_nil

theorem named_productions {ps : List Production} (h : ∀ p ∈ ps, p.WellShaped) : Named (ps.flatMap Production.kinds) := by
  intro text member
  obtain ⟨p, listed, inside⟩ := List.mem_flatMap.mp member
  exact (h p listed).named text inside

end RegularGrammar
