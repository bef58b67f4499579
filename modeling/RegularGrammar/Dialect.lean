import RegularGrammar.Unicode.Properties

/-!
# Dialects of pattern text

The two ways to write a regular expression: `rust`, and `ecmascript` with its `u`
flag. A dialect says how anchors are spelled, which characters need a backslash,
and how a class is written.
-/

namespace RegularGrammar

inductive Dialect where
  | rust
  | ecmaScript
deriving DecidableEq

namespace Dialect

/-- The dialect where none is named. -/
def default : Dialect := .rust

/-- The dialect of a name. -/
def ofName? : String → Option Dialect
  | "rust" => some .rust
  | "ecmascript" => some .ecmaScript
  | _ => none

def beginText : Dialect → List Char
  | .rust => ['\\', 'A']
  | .ecmaScript => ['^']

def endText : Dialect → List Char
  | .rust => ['\\', 'z']
  | .ecmaScript => ['$']

/-- Matches every character, line breaks included. -/
def anyChar : Dialect → List Char
  | .rust => ['(', '?', 's', ':', '.', ')']
  | .ecmaScript => ['[', '\\', 's', '\\', 'S', ']']

/-- Matches no character. -/
def noChar : Dialect → List Char
  | .rust => ['[', '^', '\\', 'x', '{', '0', '}', '-', '\\', 'x', '{', '1', '0', 'F', 'F', 'F', 'F', '}', ']']
  | .ecmaScript => ['[', ']']

/-- Characters with a meaning of their own outside of classes. -/
def isSpecial (d : Dialect) (c : Char) : Bool :=
  c ∈ ['\\', '.', '+', '*', '?', '(', ')', '|', '[', ']', '{', '}', '^', '$'] ||
    (d = .ecmaScript && c = '/')

/-- Characters with a meaning of their own inside of classes. -/
def isSpecialInClass (d : Dialect) (c : Char) : Bool :=
  c ∈ ['\\', ']', '[', '^', '-'] || (d = .rust && c ∈ ['&', '~'])

/-- The letter of an escape that gives a code point. -/
def codePointLetter : Dialect → Char
  | .rust => 'x'
  | .ecmaScript => 'u'

/-- A character by its code point, in capital hexadecimal digits. -/
def codePointText (d : Dialect) (c : Char) : List Char :=
  ['\\', d.codePointLetter, '{'] ++ (Nat.toDigits 16 c.toNat).map Char.toUpper ++ ['}']

/-- A character, escaped if it is a control or `special`. -/
def charText (d : Dialect) (special : Char → Bool) (c : Char) : List Char :=
  if c = '\n' then ['\\', 'n']
  else if c = '\r' then ['\\', 'r']
  else if c = '\t' then ['\\', 't']
  else if Unicode.isControl c then d.codePointText c
  else if special c then ['\\', c]
  else [c]

/-- A range: one character alone, two neighbours side by side, more with a dash
    between the first and the last. -/
def rangeText (d : Dialect) (r : CharRange) : List Char :=
  let bound := d.charText d.isSpecialInClass
  if r.lo = r.hi then bound r.lo
  else if Scalar.next? r.lo = some r.hi then bound r.lo ++ bound r.hi
  else bound r.lo ++ '-' :: bound r.hi

/-- The members of a class, as they stand between its brackets. -/
def membersText (d : Dialect) (rs : List CharRange) : List Char := rs.flatMap d.rangeText

/-- A class. One that holds both the first and the last scalar value is written
    by what it leaves out. -/
def classText (d : Dialect) (s : CharClass) : List Char :=
  if s.isEmpty then d.noChar
  else if s.contains Scalar.first && s.contains Scalar.last then
    match s.complement? with
    | none => d.anyChar
    | some outside => ['[', '^'] ++ d.membersText outside.ranges ++ [']']
  else '[' :: d.membersText s.ranges ++ [']']

end Dialect

end RegularGrammar
