import RegularGrammar.Regex

/-!
# Matching

Finds whether an expression matches somewhere in a text. All positions that a
match can reach are followed at once. A set of positions is encoded by one
natural number: bit `i` says that position `i`, the one before character number
`i`, is in the set.
-/

namespace RegularGrammar.Regex

/-- The positions right before the characters with a property. -/
def positionsOf (property : Char → Bool) : List Char → Nat
  | [] => 0
  | c :: cs => (property c).toNat + 2 * positionsOf property cs

/-- The positions one character further on, where that character has a property. -/
def after (subject : List Char) (property : Char → Bool) (positions : Nat) : Nat :=
  (positions &&& positionsOf property subject) <<< 1

/-- The positions that any number of steps reaches, found by repeating the step until no
    position is new. Each of `rounds` repetitions but the last adds a position. -/
def closure (step : Nat → Nat) : (rounds positions : Nat) → Nat
  | 0, positions => positions
  | rounds + 1, positions =>
    let more := positions ||| step positions
    if more = positions then positions else closure step rounds more

mutual

/-- The ends of the matches in `subject` that begin at one of the positions. -/
def ends (subject : List Char) : Regex → Nat → Nat
  | .set s, positions => after subject s.contains positions
  | .any, positions => after subject (fun _ => true) positions
  | .literal text, positions => text.toList.foldl (fun reached c => after subject (· == c) reached) positions
  | .concat items, positions => endsThrough subject items positions
  | .star body, positions => closure (ends subject body) subject.length positions
  | .plus body, positions => closure (ends subject body) subject.length (ends subject body positions)
  | .opt body, positions => positions ||| ends subject body positions
  | .alt items, positions => endsOfAny subject items positions
  | .beginText, positions => positions &&& 1
  | .endText, positions => positions &&& (1 <<< subject.length)

/-- The ends of matches of all items, one after the other. -/
def endsThrough (subject : List Char) : List Regex → Nat → Nat
  | [], positions => positions
  | r :: rest, positions => endsThrough subject rest (ends subject r positions)

/-- The ends of matches of any of the items. -/
def endsOfAny (subject : List Char) : List Regex → Nat → Nat
  | [], _ => 0
  | r :: rest, positions => ends subject r positions ||| endsOfAny subject rest positions

end

/-- Whether an expression matches some part of a text. -/
def isFoundIn (r : Regex) (text : String) : Bool :=
  let subject := text.toList
  let everywhere := (1 <<< (subject.length + 1)) - 1
  ends subject r everywhere != 0

end RegularGrammar.Regex
