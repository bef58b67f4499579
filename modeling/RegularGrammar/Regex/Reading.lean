import RegularGrammar.Regex.Matching
import RegularGrammar.Source.Quotation
import RegularGrammar.Dialect

/-!
# Reading a pattern

A pattern in the `rust` dialect is read from left to right into the expression
that it writes. A group stays open while its sides are read, and the groups around
it wait on a stack.
-/

namespace RegularGrammar.Pattern

/-- The character whose code point stands between braces, the first of them read already, and what comes after it. -/
def readCodePoint? (cs : List Char) : Option (Char × List Char) :=
  let digits := cs.takeWhile (· != '}')
  match cs.drop digits.length with
  | [] => none
  | _ :: rest =>
    if digits.isEmpty then none else ((Source.hexValue? digits).bind Source.scalar?).map fun c => (c, rest)

@[grind →]
theorem readCodePoint?_length_le {cs rest : List Char} {c : Char} (h : readCodePoint? cs = some (c, rest)) :
    rest.length ≤ cs.length := by
  unfold readCodePoint? at h
  dsimp only at h
  split at h
  · cases h
  · rename_i after dropped
    have shorter := congrArg List.length dropped
    rw [List.length_drop, List.length_cons] at shorter
    split at h
    · cases h
    · obtain ⟨c, -, same⟩ := Option.map_eq_some_iff.mp h
      cases same
      omega

/-- The character that is written first, and what comes after it. Those that are `special` need a backslash. -/
def readChar? (special : Char → Bool) : List Char → Option (Char × List Char)
  | '\\' :: 'n' :: cs => some ('\n', cs)
  | '\\' :: 'r' :: cs => some ('\r', cs)
  | '\\' :: 't' :: cs => some ('\t', cs)
  | '\\' :: 'x' :: '{' :: cs => readCodePoint? cs
  | '\\' :: c :: cs => if special c then some (c, cs) else none
  | c :: cs => if special c then none else some (c, cs)
  | [] => none

@[grind →]
theorem readChar?_length_lt {special : Char → Bool} {cs rest : List Char} {c : Char}
    (h : readChar? special cs = some (c, rest)) : rest.length < cs.length := by
  unfold readChar? at h
  split at h <;> grind

/-- The first range in a class, and what comes after it: a dash after a character asks for another one. -/
def readRange? (cs : List Char) : Option (CharRange × List Char) :=
  match readChar? Dialect.rust.isSpecialInClass cs with
  | none => none
  | some (first, '-' :: rest) =>
    match readChar? Dialect.rust.isSpecialInClass rest with
    | none => none
    | some (last, after) => if ordered : first ≤ last then some (⟨first, last, ordered⟩, after) else none
  | some (c, rest) => some (.single c, rest)

@[grind →]
theorem readRange?_length_lt {cs rest : List Char} {r : CharRange} (h : readRange? cs = some (r, rest)) :
    rest.length < cs.length := by
  unfold readRange? at h
  split at h <;> grind

/-- The ranges in a class, and what comes after its closing bracket. -/
def readRanges? : List Char → Option (List CharRange × List Char)
  | [] => none
  | c :: cs =>
    if c = ']' then some ([], cs)
    else
      match _read : readRange? (c :: cs) with
      | none => none
      | some (r, rest) => (readRanges? rest).map fun (rs, after) => (r :: rs, after)
termination_by cs => cs.length
decreasing_by exact readRange?_length_lt _read

@[grind →]
theorem readRanges?_length_lt {cs rest : List Char} {rs : List CharRange} (h : readRanges? cs = some (rs, rest)) :
    rest.length < cs.length := by
  fun_induction readRanges? cs generalizing rs with grind [Option.map_eq_some_iff]

/-- The class of some ranges, or of what they leave out. -/
def classOf (negated : Bool) (rs : List CharRange) : CharClass :=
  let s := CharClass.ofRanges rs
  if negated then s.complement?.getD .empty else s

/-- A class after its opening bracket, and what comes after its closing one. A class has members. -/
def readClass? (negated : Bool) (cs : List Char) : Option (Regex × List Char) :=
  match readRanges? cs with
  | none | some ([], _) => none
  | some (rs, rest) => some (.set (classOf negated rs), rest)

@[grind →]
theorem readClass?_length_lt {negated : Bool} {cs rest : List Char} {r : Regex} (h : readClass? negated cs = some (r, rest)) :
    rest.length < cs.length := by
  unfold readClass? at h
  split at h <;> grind

/-- What stands in a pattern, one after the other. -/
inductive Piece where
  | opening
  | closing
  | bar
  /-- A sign that repeats what is before it. -/
  | sign (repeated : Regex → Regex)
  | atom (r : Regex)

/-- The first piece of a pattern, and what comes after it. -/
def readPiece? : List Char → Option (Piece × List Char)
  | '(' :: '?' :: ':' :: cs => some (.opening, cs)
  | '(' :: '?' :: 's' :: ':' :: '.' :: ')' :: cs => some (.atom .any, cs)
  | ')' :: cs => some (.closing, cs)
  | '|' :: cs => some (.bar, cs)
  | '*' :: cs => some (.sign .star, cs)
  | '+' :: cs => some (.sign .plus, cs)
  | '?' :: cs => some (.sign .opt, cs)
  | '\\' :: 'A' :: cs => some (.atom .beginText, cs)
  | '\\' :: 'z' :: cs => some (.atom .endText, cs)
  | '[' :: '^' :: cs => (readClass? true cs).map fun (r, rest) => (.atom r, rest)
  | '[' :: cs => (readClass? false cs).map fun (r, rest) => (.atom r, rest)
  | cs => (readChar? Dialect.rust.isSpecial cs).map fun (c, rest) => (.atom (.literal (String.singleton c)), rest)

@[grind →]
theorem readPiece?_length_lt {cs rest : List Char} {p : Piece} (h : readPiece? cs = some (p, rest)) :
    rest.length < cs.length := by
  unfold readPiece? at h
  split at h <;> simp only [Option.map_eq_some_iff, List.length_cons] at h ⊢ <;> grind

/-- A group that is still open: the sides before its last bar, and the items after it, the latest first. -/
structure Group where
  sides : List Regex
  items : List Regex

namespace Group

def new : Group := ⟨[], []⟩

def push (g : Group) (r : Regex) : Group := { g with items := r :: g.items }

/-- All sides, where the last one ends here. -/
def closedSides (g : Group) : List Regex := .concat g.items.reverse :: g.sides

/-- The expression of a group that ends here. -/
def regex (g : Group) : Regex := .alt g.closedSides.reverse

end Group

/-- The open groups after a piece: the innermost one, and those around it. -/
def Piece.apply (inner : Group) (outer : List Group) : Piece → Option (Group × List Group)
  | opening => some (.new, inner :: outer)
  | closing =>
    match outer with
    | [] => none
    | next :: others => some (next.push inner.regex, others)
  | bar => some (⟨inner.closedSides, []⟩, outer)
  | sign repeated =>
    match inner.items with
    | [] => none
    | r :: before => some ({ inner with items := repeated r :: before }, outer)
  | atom r => some (inner.push r, outer)

/-- Reads the rest of a pattern into the open groups. Only the outermost is open at its end. -/
def readFrom? (inner : Group) (outer : List Group) : List Char → Option Regex
  | [] => if outer.isEmpty then some inner.regex else none
  | c :: cs =>
    match _read : readPiece? (c :: cs) with
    | none => none
    | some (piece, rest) => (piece.apply inner outer).bind fun (inner, outer) => readFrom? inner outer rest
termination_by cs => cs.length
decreasing_by exact readPiece?_length_lt _read

end RegularGrammar.Pattern

/-- The expression that a pattern in the `rust` dialect writes. -/
def RegularGrammar.Regex.ofPattern? (pattern : String) : Option RegularGrammar.Regex :=
  RegularGrammar.Pattern.readFrom? .new [] pattern.toList
