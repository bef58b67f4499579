/-!
# Tokens

What grammar text is made of. A token knows where it stands: its offset counts
the bytes of UTF-8 before it, and its origin is the text it was read from.
-/

namespace RegularGrammar

/-- The pairs of brackets. -/
inductive Bracket where
  | round
  | square
  | curly
deriving DecidableEq

namespace Bracket

def opening : Bracket → Char
  | .round => '('
  | .square => '['
  | .curly => '{'

def closing : Bracket → Char
  | .round => ')'
  | .square => ']'
  | .curly => '}'

end Bracket

namespace Source

inductive TokenKind where
  | name (text : String)
  /-- Quoted text, with its escapes resolved. -/
  | literal (value : String)
  /-- The word `not`. -/
  | not
  | equals
  | period
  | ellipsis
  | pipe
  | opening (bracket : Bracket)
  | closing (bracket : Bracket)
deriving DecidableEq

structure Token where
  kind : TokenKind
  offset : Nat
  origin : String
deriving DecidableEq

/-- Why no token can be read. Offsets count bytes; those of strings and comments
    point at where they open. -/
inductive LexicalError where
  | unsupported (offset : Nat) (found : Char)
  | unterminatedString (offset : Nat)
  | unterminatedComment (offset : Nat)
  | invalidEscape (offset : Nat)
deriving DecidableEq

def LexicalError.message : LexicalError → String
  | .unsupported offset found => s!"Unexpected character '{found}' at offset {offset}"
  | .unterminatedString offset => s!"Unterminated string starting at offset {offset}"
  | .unterminatedComment offset => s!"Unterminated comment starting at offset {offset}"
  | .invalidEscape offset => s!"Invalid escape sequence at offset {offset}"

/-- What reading text yields at each point: a token, or why there is none. -/
abbrev Item := Except LexicalError Token

end Source

end RegularGrammar
