import RegularGrammar.Grammar

/-!
# The language of a grammar

A grammar is a set of equations, one for each production: the language of its
name is what its body denotes. An expression denotes a language once the names
in it do, so what a production stands for is told by the solutions of the
equations that its name depends on.
-/

namespace RegularGrammar

/-- A set of texts. -/
abbrev Language := List Char → Prop

namespace Language

/-- Any number of texts of a language, one after the other. -/
inductive Star (l : Language) : Language where
  | nil : Star l []
  | append {u v : List Char} : l u → Star l v → Star l (u ++ v)

end Language

namespace Expr

mutual

/-- The texts of an expression, where `names` gives those of the names. -/
def Denotes (names : String → Language) : Expr → Language
  | .range first last, w => ∃ lo hi c, first.toList = [lo] ∧ last.toList = [hi] ∧ lo ≤ c ∧ c ≤ hi ∧ w = [c]
  | .literal text, w => w = text.toList
  | .sequence items, w => DenotesThrough names items w
  | .alternative items, w => DenotesAny names items w
  | .repetition body, w => Language.Star (Denotes names body) w
  | .option body, w => w = [] ∨ Denotes names body w
  | .group body, w => Denotes names body w
  | .name n, w => names n w
  | .complement body, w => ∃ c, w = [c] ∧ ¬ Denotes names body [c]

/-- Texts of all items, one after the other. -/
def DenotesThrough (names : String → Language) : List Expr → Language
  | [], w => w = []
  | e :: rest, w => ∃ u v, w = u ++ v ∧ Denotes names e u ∧ DenotesThrough names rest v

/-- Texts of one of the items. -/
def DenotesAny (names : String → Language) : List Expr → Language
  | [], _ => False
  | e :: rest, w => Denotes names e w ∨ DenotesAny names rest w

end

end Expr

namespace Grammar

/-- The body of one production refers to the name of another. -/
def Refers (g : Grammar) (a b : String) : Prop := ∃ p, g.get? a = some p ∧ b ∈ p.body.references

/-- A chain of references leads from one name to another; it may be empty. -/
inductive Reaches (g : Grammar) (a : String) : String → Prop where
  | refl : Reaches g a a
  | step {b c : String} : Reaches g a b → g.Refers b c → Reaches g a c

/-- Languages for the names that satisfy the equation of every production that a name depends on. -/
def Solves (g : Grammar) (start : String) (names : String → Language) : Prop :=
  ∀ n p, g.Reaches start n → g.get? n = some p → ∀ w, names n w ↔ p.body.Denotes names w

end Grammar

end RegularGrammar
