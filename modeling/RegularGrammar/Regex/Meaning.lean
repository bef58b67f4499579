import RegularGrammar.Regex

/-!
# What an expression matches

An expression matches spans of a text, each from one position to another. The
anchors match at the two ends of the text only, so a span depends on the whole
text and not just on the characters in it.
-/

namespace RegularGrammar.Regex

/-- Any number of steps of a relation, one after the other. -/
inductive Repeated (step : Nat → Nat → Prop) : Nat → Nat → Prop where
  | done {i : Nat} : Repeated step i i
  | more {i j k : Nat} : step i j → Repeated step j k → Repeated step i k

/-- The character after position `i` has a property, and `j` is the position after it. -/
def OneChar (subject : List Char) (property : Char → Prop) (i j : Nat) : Prop :=
  ∃ c, subject[i]? = some c ∧ property c ∧ j = i + 1

/-- Characters stand in the text from position `i` on, and `j` is the position after them. -/
def Stands (subject : List Char) : List Char → Nat → Nat → Prop
  | [], i, j => j = i
  | c :: cs, i, j => subject[i]? = some c ∧ Stands subject cs (i + 1) j

mutual

/-- An expression matches the part of the text from one position to another. -/
def Spans (subject : List Char) : Regex → Nat → Nat → Prop
  | .set s, i, j => OneChar subject (· ∈ s) i j
  | .any, i, j => OneChar subject (fun _ => True) i j
  | .literal text, i, j => Stands subject text.toList i j
  | .concat items, i, j => SpansThrough subject items i j
  | .star body, i, j => Repeated (Spans subject body) i j
  | .plus body, i, j => ∃ k, Spans subject body i k ∧ Repeated (Spans subject body) k j
  | .opt body, i, j => i = j ∨ Spans subject body i j
  | .alt items, i, j => SpansAny subject items i j
  | .beginText, i, j => i = 0 ∧ j = 0
  | .endText, i, j => i = subject.length ∧ j = subject.length

/-- All items match, each from where the one before it ends. -/
def SpansThrough (subject : List Char) : List Regex → Nat → Nat → Prop
  | [], i, j => i = j
  | r :: rest, i, j => ∃ k, Spans subject r i k ∧ SpansThrough subject rest k j

/-- One of the items matches. -/
def SpansAny (subject : List Char) : List Regex → Nat → Nat → Prop
  | [], _, _ => False
  | r :: rest, i, j => Spans subject r i j ∨ SpansAny subject rest i j

end

/-- An expression matches a text from its beginning to its end. -/
def Matches (r : Regex) (text : String) : Prop := Spans text.toList r 0 text.toList.length

/-- An expression matches some part of a text. -/
def FoundIn (r : Regex) (text : String) : Prop := ∃ i j, i ≤ text.toList.length ∧ Spans text.toList r i j

end RegularGrammar.Regex
