import RegularGrammar.Expr
import RegularGrammar.Grammar.ParseError

/-!
# Expressions that are still being read

The body of a production is read token by token. What has been read so far is
kept as a draft, so what may come next, and what is missing where it does not
come, can be told from the draft alone.
-/

namespace RegularGrammar

open Source (TokenKind)

/-- The part of an expression inside one pair of brackets: the alternatives before the
    current one and the terms of the current one, the latest first, and how many `not`
    stand before the next term. -/
structure Level where
  alternatives : List Expr
  terms : List Expr
  negations : Nat

namespace Level

/-- The beginning of an expression. -/
def start : Level := ⟨[], [], 0⟩

def addTerm (l : Level) (e : Expr) : Level :=
  ⟨l.alternatives, e.complemented l.negations :: l.terms, 0⟩

def addNegation (l : Level) : Level := ⟨l.alternatives, l.terms, l.negations + 1⟩

/-- Whether the current alternative may end here. -/
def isComplete (l : Level) : Bool := !l.terms.isEmpty && l.negations = 0

/-- The current alternative ends and the next one begins. -/
def addAlternative (l : Level) : Level := ⟨Expr.sequenceOf l.terms.reverse :: l.alternatives, [], 0⟩

/-- The expression, if it ends here. -/
def expr (l : Level) : Expr :=
  Expr.alternativeOf (Expr.sequenceOf l.terms.reverse :: l.alternatives).reverse

end Level

/-- What the latest tokens leave open. -/
inductive Tail where
  | nothing
  /-- A literal, which an ellipsis may still turn into the first bound of a range. -/
  | literal (text : String)
  /-- The first bound of a range, with its ellipsis. -/
  | bound (first : String)

/-- The body of a production as far as it has been read: the open brackets, the innermost
    first, each with what stands before it, and the expression inside. -/
structure Draft where
  outer : List (Bracket × Level)
  level : Level
  tail : Tail

namespace Draft

/-- The beginning of a body. -/
def start : Draft := ⟨[], .start, .nothing⟩

def addTerm (d : Draft) (e : Expr) : Draft := ⟨d.outer, d.level.addTerm e, .nothing⟩

/-- The body once it is known that no ellipsis follows. -/
def settled (d : Draft) : Draft :=
  match d.tail with
  | .literal text => d.addTerm (.literal text)
  | _ => d

/-- What must come next, where what does come next does not fit. -/
def expected (d : Draft) : Expected :=
  match d.tail with
  | .bound _ => .rangeEnd
  | _ =>
    let level := d.settled.level
    if 0 < level.negations then .negatedTerm
    else if level.terms.isEmpty then .term
    else
      match d.outer with
      | [] => .period
      | (bracket, _) :: _ => .closing bracket

/-- The body with one more token, if that fits after a term, a bracket or a bar. -/
def stepSettled (d : Draft) : TokenKind → Option Draft
  | .name text => some (d.addTerm (.name text))
  | .literal text => some ⟨d.outer, d.level, .literal text⟩
  | .not => some ⟨d.outer, d.level.addNegation, .nothing⟩
  | .opening bracket => some ⟨(bracket, d.level) :: d.outer, .start, .nothing⟩
  | .pipe => if d.level.isComplete then some ⟨d.outer, d.level.addAlternative, .nothing⟩ else none
  | .closing bracket =>
    match d.outer with
    | [] => none
    | (opened, level) :: outer =>
      if d.level.isComplete ∧ bracket = opened then
        some ⟨outer, level.addTerm (d.level.expr.enclose bracket), .nothing⟩
      else none
  | .equals | .period | .ellipsis => none

/-- The body with one more token, if that fits. -/
def step (d : Draft) (kind : TokenKind) : Option Draft :=
  match d.tail, kind with
  | .bound first, .literal last => some (d.addTerm (.range first last))
  | .bound _, _ => none
  | .literal text, .ellipsis => some ⟨d.outer, d.level, .bound text⟩
  | _, kind => d.settled.stepSettled kind

/-- The expression of a body, if it may end here. -/
def finish? (d : Draft) : Option Expr :=
  match d.tail, d.outer with
  | .bound _, _ => none
  | _, [] => if d.settled.level.isComplete then some d.settled.level.expr else none
  | _, _ :: _ => none

end Draft

end RegularGrammar
