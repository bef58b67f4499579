import RegularGrammar.Source.Token
import RegularGrammar.Unicode.Properties

/-!
# Positions in a text

A cursor is a position in a text. Before each token it moves over a gap: white
space, line comments and block comments. A block comment ends at the first `*/`
after its opening, and one that never ends is an error.
-/

namespace RegularGrammar.Source

/-- The length of characters in UTF-8. -/
def utf8Length : List Char → Nat
  | [] => 0
  | c :: cs => c.utf8Size + utf8Length cs

/-- A position: the bytes before it and the characters after it. -/
structure Cursor where
  offset : Nat
  rest : List Char

namespace Cursor

/-- The beginning of a text. -/
def start (text : String) : Cursor := ⟨0, text.toList⟩

/-- The position after the next `n` characters. -/
def advance (p : Cursor) (n : Nat) : Cursor :=
  ⟨p.offset + utf8Length (p.rest.take n), p.rest.drop n⟩

/-- The end of the text. -/
def finish (p : Cursor) : Cursor := p.advance p.rest.length

end Cursor

/-- The parts of a gap. -/
inductive Gap where
  | blank
  | lineComment
  | blockComment (openedAt : Nat)

/-- Where a gap ends that is entered in a given part at a given offset. -/
def skipGap : Gap → Nat → List Char → Except LexicalError Cursor
  | .blank, o, [] => .ok ⟨o, []⟩
  | .blank, o, '/' :: '/' :: cs => skipGap .lineComment (o + 2) cs
  | .blank, o, '/' :: '*' :: cs => skipGap (.blockComment o) (o + 2) cs
  | .blank, o, c :: cs =>
    if Unicode.isWhiteSpace c then skipGap .blank (o + c.utf8Size) cs else .ok ⟨o, c :: cs⟩
  | .lineComment, o, [] => .ok ⟨o, []⟩
  | .lineComment, o, c :: cs =>
    if c = '\n' then skipGap .blank (o + 1) cs else skipGap .lineComment (o + c.utf8Size) cs
  | .blockComment openedAt, _, [] => .error (.unterminatedComment openedAt)
  | .blockComment _, o, '*' :: '/' :: cs => skipGap .blank (o + 2) cs
  | .blockComment openedAt, o, c :: cs => skipGap (.blockComment openedAt) (o + c.utf8Size) cs

/-- A gap never ends before it begins. -/
theorem skipGap_length_le {g : Gap} {o : Nat} {cs : List Char} {p : Cursor} (h : skipGap g o cs = .ok p) :
    p.rest.length ≤ cs.length := by
  fun_induction skipGap g o cs with
  | case1 | case6 => cases h; exact Nat.le_refl _
  | case5 => cases h; exact Nat.le_refl _
  | case9 => cases h
  | case2 _ _ ih | case3 _ _ ih | case10 _ _ _ ih =>
    have := ih h
    simp only [List.length_cons]
    omega
  | case4 | case7 | case8 | case11 =>
    rename_i ih
    have := ih h
    simp only [List.length_cons]
    omega

end RegularGrammar.Source
