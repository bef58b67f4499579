import RegularGrammar.Source.Token

/-!
# Errors in the text of a grammar

Text that is no grammar is refused at the first token that cannot stand where it
stands, with what should have come instead.
-/

namespace RegularGrammar

open Source (LexicalError)

/-- What should have come next. -/
inductive Expected where
  | productionName
  | equals
  | term
  | negatedTerm
  | rangeEnd
  | closing (bracket : Bracket)
  | period
deriving DecidableEq

def Expected.text : Expected → String
  | .productionName => "production name"
  | .equals => "'='"
  | .term => "term"
  | .negatedTerm => "term after 'not'"
  | .rangeEnd => "range end"
  | .closing b => s!"'{b.closing}'"
  | .period => "'.'"

/-- Why a text is no grammar. -/
inductive ParseError where
  | unexpected (expected : Expected) (found : String) (offset : Nat)
  | unexpectedEnd (expected : Expected)
  /-- A second production of a name; the offset is that of the name. -/
  | redefined (name : String) (offset : Nat)
  | invalidToken (error : LexicalError)
deriving DecidableEq

def ParseError.message : ParseError → String
  | .unexpected expected found offset => s!"Expected {expected.text} at offset {offset}, got '{found}'"
  | .unexpectedEnd expected => s!"Unexpected EOF, expected {expected.text}"
  | .redefined name offset => s!"Production '{name}' redefined at offset {offset}"
  | .invalidToken error => s!"Invalid token: {error.message}"

end RegularGrammar
