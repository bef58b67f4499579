import RegularGrammar.Grammar

/-!
# Derivations of grammar text

The documented notation as derivation trees: a tree, the tokens it derives, and the
expression it stands for. Apart from the tokens nothing here looks at how a text
is read.
-/

namespace RegularGrammar.Phrase

open Source (TokenKind)

mutual

inductive Term where
  | name (text : String)
  | literal (text : String)
  | range (first last : String)
  | not (body : Term)
  | enclosed (bracket : Bracket) (body : Expression)

/-- Terms one after the other, at least one. -/
inductive Alternative where
  | last (t : Term)
  | more (t : Term) (rest : Alternative)

/-- Alternatives between bars, at least one. -/
inductive Expression where
  | last (a : Alternative)
  | more (a : Alternative) (rest : Expression)

end

/-- A production, whose body may be missing. -/
structure Rule where
  name : String
  body : Option Expression

mutual

def Term.kinds : Term → List TokenKind
  | .name text => [.name text]
  | .literal text => [.literal text]
  | .range first last => [.literal first, .ellipsis, .literal last]
  | .not body => .not :: body.kinds
  | .enclosed bracket body => .opening bracket :: body.kinds ++ [.closing bracket]

def Alternative.kinds : Alternative → List TokenKind
  | .last t => t.kinds
  | .more t rest => t.kinds ++ rest.kinds

def Expression.kinds : Expression → List TokenKind
  | .last a => a.kinds
  | .more a rest => a.kinds ++ .pipe :: rest.kinds

end

def bodyKinds : Option Expression → List TokenKind
  | none => []
  | some e => e.kinds

def Rule.kinds (r : Rule) : List TokenKind := .name r.name :: .equals :: bodyKinds r.body ++ [.period]

/-- The tokens of a whole text. -/
def rulesKinds (rules : List Rule) : List TokenKind := rules.flatMap Rule.kinds

mutual

/-- The expression of a term. A `not` takes the one term after it. -/
def Term.expr : Term → Expr
  | .name text => .name text
  | .literal text => .literal text
  | .range first last => .range first last
  | .not body => .complement body.expr
  | .enclosed .round body => .group body.expr
  | .enclosed .square body => .option body.expr
  | .enclosed .curly body => .repetition body.expr

/-- One term alone stands for itself. -/
def Alternative.expr : Alternative → Expr
  | .last t => t.expr
  | .more t rest => .sequence (t.expr :: rest.exprs)

def Alternative.exprs : Alternative → List Expr
  | .last t => [t.expr]
  | .more t rest => t.expr :: rest.exprs

/-- One alternative alone stands for itself. -/
def Expression.expr : Expression → Expr
  | .last a => a.expr
  | .more a rest => .alternative (a.expr :: rest.exprs)

def Expression.exprs : Expression → List Expr
  | .last a => [a.expr]
  | .more a rest => a.expr :: rest.exprs

end

/-- The expression of a production; a missing body is the empty sequence. -/
def Rule.expr (r : Rule) : Expr :=
  match r.body with
  | none => .sequence []
  | some e => e.expr

def Rule.production (r : Rule) : Production := ⟨r.name, r.expr⟩

/-- A term after a number of `not`. -/
def Term.negated (t : Term) : Nat → Term
  | 0 => t
  | n + 1 => .not (t.negated n)

@[simp]
theorem Term.kinds_negated (t : Term) (n : Nat) : (t.negated n).kinds = List.replicate n .not ++ t.kinds := by
  induction n with
  | zero => rfl
  | succ n ih => rw [Term.negated, Term.kinds, ih, List.replicate_succ, List.cons_append]

@[simp]
theorem Term.expr_negated (t : Term) (n : Nat) : (t.negated n).expr = t.expr.complemented n := by
  induction n with
  | zero => rfl
  | succ n ih => rw [Term.negated, Term.expr, ih, Expr.complemented]

def Alternative.ofTerms : Term → List Term → Alternative
  | t, [] => .last t
  | t, u :: rest => .more t (ofTerms u rest)

@[simp]
theorem Alternative.kinds_ofTerms (t : Term) (ts : List Term) :
    (Alternative.ofTerms t ts).kinds = (t :: ts).flatMap Term.kinds := by
  induction ts generalizing t with
  | nil => simp [Alternative.ofTerms, Alternative.kinds]
  | cons u rest ih =>
    rw [Alternative.ofTerms, Alternative.kinds, ih]
    exact List.flatMap_cons.symm

@[simp]
theorem Alternative.exprs_ofTerms (t : Term) (ts : List Term) :
    (Alternative.ofTerms t ts).exprs = (t :: ts).map Term.expr := by
  induction ts generalizing t with
  | nil => rfl
  | cons u rest ih =>
    rw [Alternative.ofTerms, Alternative.exprs, ih]
    exact List.map_cons.symm

/-- Tokens of alternatives, each with the bar after it. -/
def barredKinds (as : List Alternative) : List TokenKind := as.flatMap (·.kinds ++ [.pipe])

def Expression.ofAlternatives : List Alternative → Alternative → Expression
  | [], a => .last a
  | b :: rest, a => .more b (ofAlternatives rest a)

@[simp]
theorem Expression.kinds_ofAlternatives (as : List Alternative) (a : Alternative) :
    (Expression.ofAlternatives as a).kinds = barredKinds as ++ a.kinds := by
  induction as with
  | nil => rfl
  | cons b rest ih =>
    rw [Expression.ofAlternatives, Expression.kinds, ih]
    simp [barredKinds]

@[simp]
theorem Expression.exprs_ofAlternatives (as : List Alternative) (a : Alternative) :
    (Expression.ofAlternatives as a).exprs = as.map Alternative.expr ++ [a.expr] := by
  induction as with
  | nil => rfl
  | cons b rest ih => rw [Expression.ofAlternatives, Expression.exprs, ih, List.map_cons, List.cons_append]

@[simp]
theorem Term.expr_enclosed (bracket : Bracket) (body : Expression) :
    (Term.enclosed bracket body).expr = body.expr.enclose bracket := by
  cases bracket <;> rfl

theorem enclose_inj {e f : Expr} {b c : Bracket} (h : e.enclose b = f.enclose c) : b = c ∧ e = f := by
  cases b <;> cases c <;> simp_all [Expr.enclose]

theorem Alternative.exprs_ne_nil (a : Alternative) : a.exprs ≠ [] := by
  cases a <;> simp [Alternative.exprs]

theorem Expression.exprs_ne_nil (e : Expression) : e.exprs ≠ [] := by
  cases e <;> simp [Expression.exprs]

theorem Alternative.expr_eq (a : Alternative) : a.expr = Expr.sequenceOf a.exprs := by
  cases a with
  | last t => rfl
  | more t rest =>
    obtain ⟨e, others, found⟩ := List.exists_cons_of_ne_nil rest.exprs_ne_nil
    rw [Alternative.expr, Alternative.exprs, found]
    rfl

theorem Expression.expr_eq (e : Expression) : e.expr = Expr.alternativeOf e.exprs := by
  cases e with
  | last a => rfl
  | more a rest =>
    obtain ⟨x, others, found⟩ := List.exists_cons_of_ne_nil rest.exprs_ne_nil
    rw [Expression.expr, Expression.exprs, found]
    rfl

theorem Term.expr_ne_sequence (t : Term) (items : List Expr) : t.expr ≠ .sequence items := by
  intro same
  cases t with
  | enclosed bracket body => cases bracket <;> cases same
  | _ => cases same

theorem Term.expr_ne_alternative (t : Term) (items : List Expr) : t.expr ≠ .alternative items := by
  intro same
  cases t with
  | enclosed bracket body => cases bracket <;> cases same
  | _ => cases same

theorem Alternative.expr_ne_alternative (a : Alternative) (items : List Expr) : a.expr ≠ .alternative items := by
  cases a with
  | last t => exact t.expr_ne_alternative items
  | more t rest => exact fun same => by cases same

mutual

theorem Term.expr_inj : {s t : Term} → s.expr = t.expr → s = t
  | .name text, t, h => by
    cases t with
    | enclosed bracket body => cases bracket <;> cases h
    | _ => cases h <;> rfl
  | .literal text, t, h => by
    cases t with
    | enclosed bracket body => cases bracket <;> cases h
    | _ => cases h <;> rfl
  | .range first last, t, h => by
    cases t with
    | enclosed bracket body => cases bracket <;> cases h
    | _ => cases h <;> rfl
  | .not body, t, h => by
    cases t with
    | not body' => rw [Term.expr_inj (Expr.complement.inj h)]
    | enclosed bracket body => cases bracket <;> cases h
    | _ => cases h
  | .enclosed bracket body, t, h => by
    cases t with
    | enclosed bracket' body' =>
      rw [Term.expr_enclosed, Term.expr_enclosed] at h
      obtain ⟨rfl, inside⟩ := enclose_inj h
      rw [Expression.expr_inj inside]
    | _ => cases bracket <;> cases h

theorem Alternative.exprs_inj : {a b : Alternative} → a.exprs = b.exprs → a = b
  | .last t, b, h => by
    cases b with
    | last u => rw [Term.expr_inj (List.cons.inj h).1]
    | more u rest => exact absurd (List.cons.inj h).2.symm rest.exprs_ne_nil
  | .more t rest, b, h => by
    cases b with
    | last u => exact absurd (List.cons.inj h).2 rest.exprs_ne_nil
    | more u rest' => rw [Term.expr_inj (List.cons.inj h).1, Alternative.exprs_inj (List.cons.inj h).2]

theorem Alternative.expr_inj : {a b : Alternative} → a.expr = b.expr → a = b
  | .last t, b, h => by
    cases b with
    | last u => rw [Term.expr_inj h]
    | more u rest => exact absurd h (t.expr_ne_sequence _)
  | .more t rest, b, h => by
    cases b with
    | last u => exact absurd h.symm (u.expr_ne_sequence _)
    | more u rest' =>
      have items := List.cons.inj (Expr.sequence.inj h)
      rw [Term.expr_inj items.1, Alternative.exprs_inj items.2]

theorem Expression.exprs_inj : {e f : Expression} → e.exprs = f.exprs → e = f
  | .last a, f, h => by
    cases f with
    | last b => rw [Alternative.expr_inj (List.cons.inj h).1]
    | more b rest => exact absurd (List.cons.inj h).2.symm rest.exprs_ne_nil
  | .more a rest, f, h => by
    cases f with
    | last b => exact absurd (List.cons.inj h).2 rest.exprs_ne_nil
    | more b rest' => rw [Alternative.expr_inj (List.cons.inj h).1, Expression.exprs_inj (List.cons.inj h).2]

theorem Expression.expr_inj : {e f : Expression} → e.expr = f.expr → e = f
  | .last a, f, h => by
    cases f with
    | last b => rw [Alternative.expr_inj h]
    | more b rest => exact absurd h (a.expr_ne_alternative _)
  | .more a rest, f, h => by
    cases f with
    | last b => exact absurd h.symm (b.expr_ne_alternative _)
    | more b rest' =>
      have items := List.cons.inj (Expr.alternative.inj h)
      rw [Alternative.expr_inj items.1, Expression.exprs_inj items.2]

end

end RegularGrammar.Phrase
