import RegularGrammar.Source.Token

/-!
# Expressions of a grammar

The right-hand sides of productions.
-/

namespace RegularGrammar

inductive Expr where
  /-- One character from one bound to the other. -/
  | range (first last : String)
  | literal (text : String)
  | sequence (items : List Expr)
  | alternative (items : List Expr)
  /-- The body any number of times. -/
  | repetition (body : Expr)
  /-- The body or nothing. -/
  | option (body : Expr)
  | group (body : Expr)
  /-- Another production, by its name. -/
  | name (text : String)
  /-- One character that the body does not match. -/
  | complement (body : Expr)

namespace Expr

/-- Expressions one after another; one alone stands for itself. -/
def sequenceOf : List Expr → Expr
  | [e] => e
  | items => .sequence items

/-- A choice of expressions; one alone stands for itself. -/
def alternativeOf : List Expr → Expr
  | [e] => e
  | items => .alternative items

/-- What brackets make of the expression inside. -/
def enclose (e : Expr) : Bracket → Expr
  | .round => .group e
  | .square => .option e
  | .curly => .repetition e

/-- An expression under `n` complements. -/
def complemented (e : Expr) : Nat → Expr
  | 0 => e
  | n + 1 => .complement (e.complemented n)

mutual

/-- The names that an expression refers to, from left to right. -/
def references : Expr → List String
  | .range _ _ => []
  | .literal _ => []
  | .sequence items => referencesAll items
  | .alternative items => referencesAll items
  | .repetition body => references body
  | .option body => references body
  | .group body => references body
  | .name n => [n]
  | .complement body => references body

def referencesAll : List Expr → List String
  | [] => []
  | e :: rest => references e ++ referencesAll rest

end

end Expr

end RegularGrammar
