import RegularGrammar.Proofs.Pattern.Spelling
import RegularGrammar.Regex.Meaning

/-!
# Patterns as lists of items

The fragment of a dialect in which expressions are written: its trees, the text of
a tree, and what a tree matches. No two trees have one text, since an atom ends
where it ends and none begins with a quantifier, a bar or a closing parenthesis.
-/

namespace RegularGrammar.Pattern

/-- The atoms with a text of their own. -/
inductive Token where
  | anyCharacter
  | noCharacter
  | beginText
  | endText

inductive Quantifier where
  | star
  | plus
  | opt

mutual

/-- What a quantifier may follow. -/
inductive Atom where
  | char (s : Spelling)
  | set (negated : Bool) (members : List Member)
  | token (t : Token)
  | group (branches : Branches)

/-- Atoms one after the other, each with at most one quantifier. -/
inductive Items where
  | nil
  | cons (atom : Atom) (quantifier : Option Quantifier) (rest : Items)

/-- The sides of the bars in a group. -/
inductive Branches where
  | last (items : Items)
  | more (items : Items) (rest : Branches)

end

def Token.text : Dialect → Token → List Char
  | .rust, anyCharacter => ['(', '?', 's', ':', '.', ')']
  | .rust, noCharacter =>
    ['[', '^', '\\', 'x', '{', '0', '}', '-', '\\', 'x', '{', '1', '0', 'F', 'F', 'F', 'F', '}', ']']
  | .rust, beginText => ['\\', 'A']
  | .rust, endText => ['\\', 'z']
  | .ecmaScript, anyCharacter => ['[', '\\', 's', '\\', 'S', ']']
  | .ecmaScript, noCharacter => ['[', ']']
  | .ecmaScript, beginText => ['^']
  | .ecmaScript, endText => ['$']

def Quantifier.sign : Quantifier → Char
  | star => '*'
  | plus => '+'
  | opt => '?'

def quantifierText : Option Quantifier → List Char
  | none => []
  | some q => [q.sign]

def setText (d : Dialect) (negated : Bool) (members : List Member) : List Char :=
  (if negated then ['[', '^'] else ['[']) ++ membersText d members ++ [']']

mutual

def Atom.text (d : Dialect) : Atom → List Char
  | .char s => s.text d
  | .set negated members => setText d negated members
  | .token t => t.text d
  | .group branches => ['(', '?', ':'] ++ branches.text d ++ [')']

def Items.text (d : Dialect) : Items → List Char
  | .nil => []
  | .cons atom quantifier rest => atom.text d ++ quantifierText quantifier ++ rest.text d

def Branches.text (d : Dialect) : Branches → List Char
  | .last items => items.text d
  | .more items rest => items.text d ++ '|' :: rest.text d

end

mutual

/-- A class has members, and where it is written like the token of no character it is that token. -/
def Atom.WellFormed (d : Dialect) : Atom → Prop
  | .char s => s.WellFormed (metacharacters d)
  | .set negated members =>
    members ≠ [] ∧ (∀ m ∈ members, m.WellFormed d) ∧ setText d negated members ≠ Token.noCharacter.text d
  | .token _ => True
  | .group branches => branches.WellFormed d

def Items.WellFormed (d : Dialect) : Items → Prop
  | .nil => True
  | .cons atom _ rest => atom.WellFormed d ∧ rest.WellFormed d

def Branches.WellFormed (d : Dialect) : Branches → Prop
  | .last items => items.WellFormed d
  | .more items rest => items.WellFormed d ∧ rest.WellFormed d

end

/-- Items are read from a text. -/
structure Reads (d : Dialect) (text : List Char) (p : Items) : Prop where
  wellFormed : p.WellFormed d
  text_eq : p.text d = text

open Regex (OneChar Repeated)

def Token.Spans (subject : List Char) : Token → Nat → Nat → Prop
  | anyCharacter, i, j => OneChar subject (fun _ => True) i j
  | noCharacter, _, _ => False
  | beginText, i, j => i = 0 ∧ j = 0
  | endText, i, j => i = subject.length ∧ j = subject.length

/-- A step as often as a quantifier says. -/
def Quantified (step : Nat → Nat → Prop) : Option Quantifier → Nat → Nat → Prop
  | none, i, j => step i j
  | some .star, i, j => Repeated step i j
  | some .plus, i, j => ∃ k, step i k ∧ Repeated step k j
  | some .opt, i, j => i = j ∨ step i j

/-- The characters that a class matches. -/
def SetHolds (negated : Bool) (members : List Member) (c : Char) : Prop :=
  if negated then ∀ m ∈ members, ¬ m.Holds c else ∃ m ∈ members, m.Holds c

mutual

/-- An atom matches the part of the text from one position to another. -/
def Atom.Spans (subject : List Char) : Atom → Nat → Nat → Prop
  | .char s, i, j => OneChar subject (fun c => s.value? = some c) i j
  | .set negated members, i, j => OneChar subject (SetHolds negated members) i j
  | .token t, i, j => t.Spans subject i j
  | .group branches, i, j => branches.Spans subject i j

def Items.Spans (subject : List Char) : Items → Nat → Nat → Prop
  | .nil, i, j => i = j
  | .cons atom quantifier rest, i, j =>
    ∃ k, Quantified (atom.Spans subject) quantifier i k ∧ rest.Spans subject k j

def Branches.Spans (subject : List Char) : Branches → Nat → Nat → Prop
  | .last items, i, j => items.Spans subject i j
  | .more items rest, i, j => items.Spans subject i j ∨ rest.Spans subject i j

end

end RegularGrammar.Pattern
