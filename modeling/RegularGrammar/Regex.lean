import RegularGrammar.CharClass

/-!
# Regular expressions

The expressions that a grammar turns into. A literal is matched as it stands, an
alternation of nothing matches nothing, and a concatenation of nothing matches
the empty text.
-/

namespace RegularGrammar

inductive Regex where
  /-- One character of a class. -/
  | set (members : CharClass)
  /-- Any one character. -/
  | any
  | literal (text : String)
  | concat (items : List Regex)
  | star (body : Regex)
  | plus (body : Regex)
  | opt (body : Regex)
  | alt (items : List Regex)
  /-- The position before the first character. -/
  | beginText
  /-- The position after the last character. -/
  | endText

namespace Regex

/-- One character of a class, written as `any` if the class holds every character. -/
def ofClass (s : CharClass) : Regex := if s.isFull then .any else .set s

/-- What an expression is called in messages. -/
def kind : Regex → String
  | .set _ => "character class"
  | .any => "any character"
  | .literal _ => "literal"
  | .concat _ => "concatenation"
  | .star _ => "repetition"
  | .plus _ => "one-or-more repetition"
  | .opt _ => "option"
  | .alt _ => "alternation"
  | .beginText => "start of text"
  | .endText => "end of text"

mutual

/-- Whether two expressions are built alike. -/
def same : Regex → Regex → Bool
  | .set s, .set t => s = t
  | .any, .any => true
  | .literal s, .literal t => s = t
  | .concat xs, .concat ys => sameAll xs ys
  | .star x, .star y => same x y
  | .plus x, .plus y => same x y
  | .opt x, .opt y => same x y
  | .alt xs, .alt ys => sameAll xs ys
  | .beginText, .beginText => true
  | .endText, .endText => true
  | _, _ => false

def sameAll : List Regex → List Regex → Bool
  | [], [] => true
  | x :: xs, y :: ys => same x y && sameAll xs ys
  | _, _ => false

end

mutual

@[simp]
theorem same_iff : (x y : Regex) → (same x y = true ↔ x = y)
  | .set s, y => by cases y <;> simp [same]
  | .any, y => by cases y <;> simp [same]
  | .literal s, y => by cases y <;> simp [same]
  | .concat xs, y => by cases y <;> simp [same, sameAll_iff xs]
  | .star x, y => by cases y <;> simp [same, same_iff x]
  | .plus x, y => by cases y <;> simp [same, same_iff x]
  | .opt x, y => by cases y <;> simp [same, same_iff x]
  | .alt xs, y => by cases y <;> simp [same, sameAll_iff xs]
  | .beginText, y => by cases y <;> simp [same]
  | .endText, y => by cases y <;> simp [same]

@[simp]
theorem sameAll_iff : (xs ys : List Regex) → (sameAll xs ys = true ↔ xs = ys)
  | [], ys => by cases ys <;> simp [sameAll]
  | x :: xs, ys => by cases ys <;> simp [sameAll, same_iff x, sameAll_iff xs]

end

instance : DecidableEq Regex := fun x y => decidable_of_iff _ (same_iff x y)

/-- The list `x :: rest` where every `y` right before `y*` becomes `y+`, from left to right. -/
def collapseFrom (x : Regex) : List Regex → List Regex
  | [] => [x]
  | .star y :: rest => if x = y then collapseFrom (.plus y) rest else x :: collapseFrom (.star y) rest
  | y :: rest => x :: collapseFrom y rest

/-- Siblings of a concatenation where every `x` right before `x*` becomes `x+`. -/
def collapseRepeats : List Regex → List Regex
  | [] => []
  | x :: rest => collapseFrom x rest

end Regex

end RegularGrammar
